import DesignTokens.Proofs.QuotedStrings
import DesignTokens.Toml.Reader
import DesignTokens.Toml.Writer

/-!
# Written settings are read back

Every line of written settings is read as one statement: a header gives the name of its section and
a setting its key and its value.  The reader meets nothing else between two lines than an empty
one, so it finds the statements of all sections in their order.
-/

namespace DesignTokens
namespace Toml

variable {mark : Char} {fuel depth : Nat}

namespace Reader

/-! ## Between values -/

theorem skipBlanks_cons {c : Char} (solid : isBlank c = false) (text : List Char) :
    skipBlanks (c :: text) = c :: text :=
  List.dropWhile_cons_of_neg (by simp [solid])

theorem skipLines_cons {c : Char} (solid : isBlank c = false) (lineBreak : c ≠ '\n')
    (comment : c ≠ '#') (carriage : c ≠ '\r') (text : List Char) :
    skipLines false (c :: text) = c :: text := by
  rw [skipLines.eq_def]
  simp [solid, lineBreak, comment, carriage]

theorem skipLines_lineBreak (text : List Char) :
    skipLines false ('\n' :: text) = skipLines false text := by
  rw [skipLines.eq_def]
  simp

theorem skipLines_space (text : List Char) :
    skipLines false (' ' :: text) = skipLines false text := by
  rw [skipLines.eq_def]
  simp [isBlank]

theorem lineEnd?_lineBreak (text : List Char) : lineEnd? ('\n' :: text) = some text := by
  rw [lineEnd?, skipBlanks_cons (by decide)]
  rfl

/-! ## Values -/

theorem skipLines_write (text rest : List Char) :
    skipLines false (Quoted.write text ++ rest) = Quoted.write text ++ rest := by
  obtain ⟨quote, tail, same, rfl | rfl⟩ := Quoted.exists_write_cons text
  · rw [same]
    exact skipLines_cons rfl (by decide) (by decide) (by decide) _
  · rw [same]
    exact skipLines_cons rfl (by decide) (by decide) (by decide) _

theorem value?_write (double : mark ≠ '"') (single : mark ≠ '\'') (text rest : List Char) :
    value? (fuel + 1) depth (Quoted.write text ++ mark :: rest) =
      some (.string (String.ofList text), mark :: rest) := by
  have read := Quoted.read?_write double single text rest
  obtain ⟨quote, tail, same, quotes⟩ := Quoted.exists_write_cons text
  rw [same, List.cons_append] at read ⊢
  rw [value?.eq_def]
  simp [quotes, read]

theorem skipLines_comma (text : List Char) : skipLines false (',' :: text) = ',' :: text :=
  skipLines_cons rfl (by decide) (by decide) (by decide) text

theorem skipLines_bracket (text : List Char) : skipLines false (']' :: text) = ']' :: text :=
  skipLines_cons rfl (by decide) (by decide) (by decide) text

theorem items?_close {text rest : List Char} (close : skipLines false text = ']' :: rest) :
    items? (fuel + 1) depth text = some ([], rest) := by
  rw [items?.eq_def]
  simp only [close]

/-- A written text is an item, and what follows it decides whether there are more of them. -/
theorem items?_write {text rest : List Char} {value : String} (double : mark ≠ '"')
    (single : mark ≠ '\'') (solid : skipLines false (mark :: rest) = mark :: rest)
    (start : skipLines false text = Quoted.write value.toList ++ mark :: rest) :
    items? (fuel + 2) depth text =
      if mark = ',' then
        (items? (fuel + 1) depth rest).map fun step => (.string value :: step.1, step.2)
      else if mark = ']' then some ([.string value], rest)
      else none := by
  have read : value? (fuel + 1) depth (Quoted.write value.toList ++ mark :: rest) = _ :=
    value?_write double single value.toList rest
  obtain ⟨quote, tail, same, quotes⟩ := Quoted.exists_write_cons value.toList
  rw [same, List.cons_append] at start read
  rw [items?.eq_def]
  simp only [start]
  split
  -- An item starts with a quote, so the array is not closed in front of it.
  case h_1 closed =>
    cases closed
    exact absurd quotes (by decide)
  case h_2 =>
    simp only [read, Option.bind_eq_bind, Option.bind_some, solid, String.ofList_toList]
    split
    case h_1 comma =>
      cases comma
      cases items? (fuel + 1) depth rest with
      | none => rfl
      | some step => rfl
    case h_2 close =>
      cases close
      rfl
    case h_3 comma close =>
      have more : mark ≠ ',' := fun same => comma rest (by rw [same])
      have last : mark ≠ ']' := fun same => close rest (by rw [same])
      rw [if_neg more, if_neg last]

/-- Items with a line for each, up to the end of their array. -/
def itemLines (values : List String) : List Char :=
  values.flatMap fun value =>
    ' ' :: ' ' :: ' ' :: ' ' :: (Quoted.write value.toList ++ [',', '\n'])

theorem items?_itemLines (values : List String) (enough : values.length < fuel)
    (rest : List Char) :
    items? fuel depth ('\n' :: (itemLines values ++ ']' :: rest)) =
      some (values.map .string, rest) := by
  induction values generalizing fuel with
  | nil =>
      obtain ⟨spare, rfl⟩ : ∃ spare, fuel = spare + 1 := ⟨fuel - 1, by simp at enough; omega⟩
      exact items?_close (by rw [skipLines_lineBreak]; exact skipLines_bracket rest)
  | cons value values ih =>
      rw [List.length_cons] at enough
      obtain ⟨spare, rfl⟩ : ∃ spare, fuel = spare + 2 := ⟨fuel - 2, by omega⟩
      have start : skipLines false ('\n' :: (itemLines (value :: values) ++ ']' :: rest)) =
          Quoted.write value.toList ++ ',' :: '\n' :: (itemLines values ++ ']' :: rest) := by
        simp [itemLines, skipLines_lineBreak, skipLines_space, skipLines_write]
      rw [items?_write (by decide) (by decide) (skipLines_comma _) start, if_pos rfl, ih (by omega)]
      rfl

theorem length_le_itemLines (values : List String) :
    values.length ≤ (itemLines values).length := by
  induction values with
  | nil => simp
  | cons value values ih =>
      simp only [itemLines, List.flatMap_cons, List.length_append, List.length_cons] at ih ⊢
      omega

/-- The items of a written array between its brackets. -/
def itemsText : List String → List Char
  | [] => []
  | [value] => Quoted.write value.toList
  | values => '\n' :: itemLines values

theorem length_le_itemsText (values : List String) :
    values.length ≤ (itemsText values).length := by
  cases values with
  | nil => simp
  | cons value values =>
      cases values with
      | nil =>
          obtain ⟨quote, tail, same, _⟩ := Quoted.exists_write_cons value.toList
          simp [itemsText, same]
      | cons second values =>
          exact Nat.le_succ_of_le (length_le_itemLines (value :: second :: values))

theorem toList_writeTexts (values : List String) :
    (Setting.writeTexts values).toList = '[' :: (itemsText values ++ [']']) := by
  cases values with
  | nil => simp [Setting.writeTexts, itemsText]
  | cons value values =>
      cases values with
      | nil => simp [Setting.writeTexts, Setting.quote, itemsText]
      | cons second values =>
          simp [Setting.writeTexts, Setting.quote, itemsText, itemLines, List.flatMap_map]

theorem items?_itemsText (values : List String) (enough : values.length < fuel)
    (rest : List Char) :
    items? fuel depth (itemsText values ++ ']' :: rest) = some (values.map .string, rest) := by
  cases values with
  | nil =>
      obtain ⟨spare, rfl⟩ : ∃ spare, fuel = spare + 1 := ⟨fuel - 1, by simp at enough; omega⟩
      exact items?_close (skipLines_bracket rest)
  | cons value values =>
      cases values with
      | nil =>
          obtain ⟨spare, rfl⟩ : ∃ spare, fuel = spare + 2 := ⟨fuel - 2, by simp at enough; omega⟩
          exact items?_write (by decide) (by decide) (skipLines_bracket rest) (skipLines_write _ _)
      | cons second values => exact items?_itemLines (value :: second :: values) enough rest

/-! ## Settings -/

theorem value?_array (text : List Char) :
    value? (fuel + 1) (depth + 1) ('[' :: text) =
      (items? fuel depth text).map fun step => (.array step.1, step.2) := by
  rw [value?.eq_def]
  simp

/-- The value of a written setting is read back at the end of its line. -/
theorem value?_setting (setting : Setting) (enough : setting.write.toList.length < fuel)
    (rest : List Char) :
    value? fuel (depth + 1) (setting.write.toList ++ '\n' :: rest) =
      some (setting.toToml, '\n' :: rest) := by
  obtain ⟨spare, rfl⟩ : ∃ spare, fuel = spare + 1 := ⟨fuel - 1, by omega⟩
  cases setting with
  | text value =>
      rw [Setting.write, Setting.quote, String.toList_ofList, value?_write (by decide) (by decide),
        String.ofList_toList]
      rfl
  | texts values =>
      have size := length_le_itemsText values
      rw [Setting.write, toList_writeTexts] at enough ⊢
      rw [List.length_cons, List.length_append] at enough
      rw [List.cons_append, value?_array, List.append_assoc, List.singleton_append,
        items?_itemsText values (by omega)]
      rfl

theorem exists_setting_cons (setting : Setting) :
    ∃ c tail, setting.write.toList = c :: tail ∧ isBlank c = false := by
  cases setting with
  | text value =>
      rw [Setting.write, Setting.quote, String.toList_ofList]
      obtain ⟨quote, tail, same, rfl | rfl⟩ := Quoted.exists_write_cons value.toList
      · exact ⟨_, tail, same, rfl⟩
      · exact ⟨_, tail, same, rfl⟩
  | texts values => exact ⟨_, _, toList_writeTexts values, rfl⟩

end Reader

/-! ## Lines -/

/-- A name that is a key without quotes. -/
def IsBareKey (name : String) : Prop :=
  (!name.toList.isEmpty && name.toList.all Reader.isKeyChar) = true

namespace IsBareKey

variable {name : String}

theorem filled (bare : IsBareKey name) : name.toList ≠ [] := by
  have parts := Bool.and_eq_true_iff.mp bare
  simpa using parts.1

theorem chars (bare : IsBareKey name) : ∀ c ∈ name.toList, Reader.isKeyChar c = true :=
  List.all_eq_true.mp (Bool.and_eq_true_iff.mp bare).2

theorem exists_toList (bare : IsBareKey name) : ∃ c tail, name.toList = c :: tail ∧
    Reader.isKeyChar c = true := by
  obtain ⟨c, tail, spelled⟩ := List.exists_cons_of_ne_nil bare.filled
  exact ⟨c, tail, spelled, bare.chars c (spelled ▸ List.mem_cons_self)⟩

end IsBareKey

namespace Reader

theorem isKeyChar_ne {c other : Char} (key : isKeyChar c = true)
    (odd : isKeyChar other = false) : c ≠ other := by
  rintro rfl
  exact Bool.false_ne_true (odd.symm.trans key)

theorem isBlank_of_isKeyChar {c : Char} (key : isKeyChar c = true) : isBlank c = false := by
  have space : c ≠ ' ' := isKeyChar_ne key (by decide)
  have tab : c ≠ '\t' := isKeyChar_ne key (by decide)
  simp [isBlank, space, tab]

theorem skipLines_key {c : Char} (key : isKeyChar c = true) (text : List Char) :
    skipLines false (c :: text) = c :: text :=
  skipLines_cons (isBlank_of_isKeyChar key) (isKeyChar_ne key (by decide))
    (isKeyChar_ne key (by decide)) (isKeyChar_ne key (by decide)) text

theorem skipBlanks_bare {name : String} (bare : IsBareKey name) (text : List Char) :
    skipBlanks (name.toList ++ text) = name.toList ++ text := by
  obtain ⟨c, tail, spelled, key⟩ := bare.exists_toList
  rw [spelled]
  exact skipBlanks_cons (isBlank_of_isKeyChar key) _

theorem simpleKey?_bare {name : String} (bare : IsBareKey name) (stop : isKeyChar mark = false)
    (text : List Char) : simpleKey? (name.toList ++ mark :: text) = some (name, mark :: text) := by
  obtain ⟨c, tail, spelled, key⟩ := bare.exists_toList
  have double : c ≠ '"' := isKeyChar_ne key (by decide)
  have single : c ≠ '\'' := isKeyChar_ne key (by decide)
  have taken : (name.toList ++ mark :: text).takeWhile isKeyChar = name.toList := by
    rw [List.takeWhile_append_of_pos bare.chars, List.takeWhile_cons_of_neg (by simp [stop]),
      List.append_nil]
  have left : (name.toList ++ mark :: text).dropWhile isKeyChar = mark :: text := by
    rw [List.dropWhile_append_of_pos bare.chars, List.dropWhile_cons_of_neg (by simp [stop])]
  have head : (name.toList ++ mark :: text).head? = some c := by rw [spelled]; rfl
  rw [simpleKey?, head]
  simp [double, single, taken, left, bare.filled]

/-- A bare key ends where, after blanks, there is no point. -/
theorem key?_bare {name : String} {next : Char} {text rest : List Char} (bare : IsBareKey name)
    (stop : isKeyChar mark = false) (after : skipBlanks (mark :: text) = next :: rest)
    (point : next ≠ '.') :
    key? (name.toList ++ mark :: text) = some (⟨[], name⟩, next :: rest) := by
  have single : keys? maxDepth (name.toList ++ mark :: text) = some ([name], next :: rest) := by
    rw [maxDepth, keys?, skipBlanks_bare bare, simpleKey?_bare bare stop]
    simp only [Option.bind_eq_bind, Option.bind_some, after]
    split
    case h_1 same =>
      cases same
      exact absurd rfl point
    case h_2 => rfl
  rw [key?, single]
  rfl

/-- The line of a setting. -/
def settingLine (setting : String × Setting) : List Char :=
  setting.1.toList ++ ' ' :: '=' :: ' ' :: (setting.2.write.toList ++ ['\n'])

/-- The statement on the line of a setting. -/
def settingStatement (setting : String × Setting) : Statement :=
  .pair ⟨⟨[], setting.1⟩, setting.2.toToml⟩

theorem statement?_setting {setting : String × Setting} (bare : IsBareKey setting.1)
    (rest : List Char) :
    statement? (settingLine setting ++ rest) = some (settingStatement setting, '\n' :: rest) := by
  obtain ⟨name, value⟩ := setting
  have line : settingLine (name, value) ++ rest =
      name.toList ++ ' ' :: '=' :: ' ' :: (value.write.toList ++ '\n' :: rest) := by
    simp [settingLine]
  obtain ⟨c, tail, spelled, isKey⟩ := bare.exists_toList
  have key : key? (name.toList ++ ' ' :: '=' :: ' ' :: (value.write.toList ++ '\n' :: rest)) =
      some (⟨[], name⟩, '=' :: ' ' :: (value.write.toList ++ '\n' :: rest)) :=
    key?_bare bare (by decide) rfl (by decide)
  have solid : skipBlanks (' ' :: (value.write.toList ++ '\n' :: rest)) =
      value.write.toList ++ '\n' :: rest := by
    obtain ⟨first, later, same, solid⟩ := exists_setting_cons value
    rw [same]
    exact skipBlanks_cons solid (later ++ '\n' :: rest)
  have enough : value.write.toList.length < fuelFor (value.write.toList ++ '\n' :: rest) := by
    rw [fuelFor, List.length_append]
    omega
  have read : value? (fuelFor (value.write.toList ++ '\n' :: rest)) maxDepth
      (value.write.toList ++ '\n' :: rest) = some (value.toToml, '\n' :: rest) :=
    value?_setting value enough rest
  rw [line]
  unfold statement?
  split
  -- A bare key opens no header.
  case h_1 same =>
    rw [spelled] at same
    obtain ⟨rfl, _⟩ := List.cons.inj same
    exact absurd isKey (by decide)
  case h_2 same =>
    rw [spelled] at same
    obtain ⟨rfl, _⟩ := List.cons.inj same
    exact absurd isKey (by decide)
  case h_3 =>
    simp only [key, Option.bind_eq_bind, Option.bind_some, Scalar.mark?, if_true, solid, read]
    rfl

theorem statement?_header {name : String} (bare : IsBareKey name) (rest : List Char) :
    statement? ('[' :: (name.toList ++ ']' :: rest)) =
      some (.header (.table ⟨[], name⟩), rest) := by
  obtain ⟨c, tail, spelled, isKey⟩ := bare.exists_toList
  have key : key? (name.toList ++ ']' :: rest) = some (⟨[], name⟩, ']' :: rest) :=
    key?_bare bare (by decide) rfl (by decide)
  unfold statement?
  split
  case h_1 same =>
    rw [spelled] at same
    cases same
    exact absurd isKey (by decide)
  case h_2 same =>
    cases same
    simp only [key, Option.bind_eq_bind, Option.bind_some, Scalar.mark?, if_true]
    rfl
  case h_3 other => exact absurd rfl (other _)

/-! ## Runs of lines -/

/-- A statement that ends its line comes in front of the statements behind it. -/
theorem statements?_cons {text more rest : List Char} {c : Char} {statement : Statement}
    (start : skipLines false text = c :: more)
    (read : statement? (c :: more) = some (statement, '\n' :: rest)) :
    statements? (fuel + 1) text = (statements? fuel rest).map (statement :: ·) := by
  rw [statements?, start]
  simp only [read, Option.bind_eq_bind, Option.bind_some, lineEnd?_lineBreak]
  cases statements? fuel rest with
  | none => rfl
  | some statements => rfl

theorem statements?_settings {settings : List (String × Setting)}
    (bare : ∀ setting ∈ settings, IsBareKey setting.1) (rest : List Char) :
    statements? (fuel + settings.length) (settings.flatMap settingLine ++ rest) =
      (statements? fuel rest).map (settings.map settingStatement ++ ·) := by
  induction settings with
  | nil => simp
  | cons setting settings ih =>
      obtain ⟨here, others⟩ := List.forall_mem_cons.mp bare
      obtain ⟨c, tail, spelled, key⟩ := here.exists_toList
      obtain ⟨more, line⟩ : ∃ more,
          settingLine setting ++ (settings.flatMap settingLine ++ rest) = c :: more := by
        rw [settingLine, spelled]
        exact ⟨_, rfl⟩
      have read := statement?_setting here (settings.flatMap settingLine ++ rest)
      rw [List.flatMap_cons, List.append_assoc, List.length_cons, ← Nat.add_assoc]
      rw [line] at read ⊢
      rw [statements?_cons (skipLines_key key more) read, ih others]
      simp [Function.comp_def]

end Reader

namespace Section

/-- The statements of a section. -/
def statements (group : Section) : List Reader.Statement :=
  .header (.table ⟨[], group.name⟩) :: group.settings.map Reader.settingStatement

/-- All names in a section are keys without quotes. -/
structure Bare (group : Section) : Prop where
  /-- The name of the section is. -/
  name : IsBareKey group.name
  /-- The names of its settings are. -/
  settings : ∀ setting ∈ group.settings, IsBareKey setting.1

theorem toList_write (group : Section) :
    group.write.toList =
      '[' :: (group.name.toList ++ ']' :: '\n' :: group.settings.flatMap Reader.settingLine) := by
  simp [Section.write, List.flatMap_map]
  rfl

theorem statements?_write {group : Section} (bare : group.Bare) (rest : List Char) :
    Reader.statements? (fuel + group.statements.length) (group.write.toList ++ rest) =
      (Reader.statements? fuel rest).map (group.statements ++ ·) := by
  have start : Reader.skipLines false (group.write.toList ++ rest) = '[' :: (group.name.toList ++
      ']' :: '\n' :: (group.settings.flatMap Reader.settingLine ++ rest)) := by
    rw [toList_write]
    simp [Reader.skipLines_cons, isBlank]
  have read := Reader.statement?_header bare.name
    ('\n' :: (group.settings.flatMap Reader.settingLine ++ rest))
  rw [statements, List.length_cons, List.length_map, ← Nat.add_assoc,
    Reader.statements?_cons start read, Reader.statements?_settings bare.settings]
  simp [Function.comp_def]

theorem length_statements_le (group : Section) :
    group.statements.length ≤ group.write.toList.length := by
  have lines : ∀ settings : List (String × Setting),
      settings.length ≤ (settings.flatMap Reader.settingLine).length := by
    intro settings
    induction settings with
    | nil => simp
    | cons setting settings ih =>
        simp only [List.flatMap_cons, List.length_append, List.length_cons, Reader.settingLine]
        omega
  have size := lines group.settings
  simp only [statements, toList_write, List.length_cons, List.length_append, List.length_map]
  omega

end Section

/-- Sections with an empty line between each and the next. -/
def sectionLines : List Section → List Char
  | [] => []
  | [group] => group.write.toList
  | group :: groups => group.write.toList ++ '\n' :: sectionLines groups

theorem toList_writeSections (groups : List Section) :
    (writeSections groups).toList = sectionLines groups := by
  induction groups with
  | nil => rfl
  | cons group groups ih =>
      cases groups with
      | nil => simp [writeSections, sectionLines]
      | cons next groups =>
          rw [sectionLines, ← ih]
          · simp [writeSections]
          · exact nofun

theorem statements?_lineBreak (text : List Char) :
    Reader.statements? fuel ('\n' :: text) = Reader.statements? fuel text := by
  cases fuel with
  | zero => rfl
  | succ fuel => rw [Reader.statements?, Reader.statements?, Reader.skipLines_lineBreak]

/-- Behind the first of some sections there are the others, maybe after an empty line. -/
theorem exists_sectionLines_cons (group : Section) (groups : List Section) :
    ∃ rest, sectionLines (group :: groups) = group.write.toList ++ rest ∧
      (∀ fuel, Reader.statements? fuel rest = Reader.statements? fuel (sectionLines groups)) ∧
      (sectionLines groups).length ≤ rest.length := by
  cases groups with
  | nil => exact ⟨[], (List.append_nil _).symm, fun _ => rfl, Nat.le_refl _⟩
  | cons next groups => exact ⟨_, rfl, fun _ => statements?_lineBreak _, Nat.le_succ _⟩

theorem statements?_sectionLines {groups : List Section} (bare : ∀ group ∈ groups, group.Bare)
    (enough : (groups.flatMap Section.statements).length < fuel) :
    Reader.statements? fuel (sectionLines groups) = some (groups.flatMap Section.statements) := by
  induction groups generalizing fuel with
  | nil =>
      obtain ⟨spare, rfl⟩ : ∃ spare, fuel = spare + 1 := ⟨fuel - 1, by simp at enough; omega⟩
      rfl
  | cons group groups ih =>
      obtain ⟨here, others⟩ := List.forall_mem_cons.mp bare
      rw [List.flatMap_cons, List.length_append] at enough
      -- A section takes as much fuel as it has statements; what is left is enough for the others.
      obtain ⟨spare, rfl⟩ : ∃ spare, fuel = spare + group.statements.length :=
        ⟨fuel - group.statements.length, by omega⟩
      have later := ih others (show _ < spare by omega)
      obtain ⟨rest, joined, same, _⟩ := exists_sectionLines_cons group groups
      rw [joined, Section.statements?_write here, same, later]
      rfl

theorem length_flatMap_statements_le (groups : List Section) :
    (groups.flatMap Section.statements).length ≤ (sectionLines groups).length := by
  induction groups with
  | nil => exact Nat.le_refl 0
  | cons group groups ih =>
      have size := group.length_statements_le
      obtain ⟨rest, joined, _, longer⟩ := exists_sectionLines_cons group groups
      rw [joined, List.flatMap_cons, List.length_append, List.length_append]
      omega

end Toml
end DesignTokens
