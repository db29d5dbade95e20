import DesignTokens.Json.Reader
import DesignTokens.Json.Writer
import DesignTokens.Proofs.OrderedMaps

/-!
# Written strings are read back

The reader undoes the escapes of the writer, character by character.  A compact object of strings
is therefore read back member by member, with its members in the same order.
-/

namespace DesignTokens
namespace Json

theorem hexDigit?_digitChar : ∀ digit < 16, Text.hexDigit? (Nat.digitChar digit) = some digit := by
  decide

theorem hexUnit?_of_lt {code : Nat} (small : code < 0x20) :
    Reader.hexUnit? '0' '0' (Nat.digitChar (code / 16)) (Nat.digitChar (code % 16)) =
      some code := by
  have high := hexDigit?_digitChar (code / 16) (by omega)
  have low := hexDigit?_digitChar (code % 16) (by omega)
  have zero : Text.hexDigit? '0' = some 0 := rfl
  have value : code / 16 * 16 + code % 16 = code := by omega
  simp [Reader.hexUnit?, zero, high, low, value]

theorem stringBody_letter {letter escaped : Char} (known : Reader.letterEscape? letter = some escaped)
    (text : List Char) :
    Reader.stringBody ('\\' :: letter :: text) = Reader.prepend escaped (Reader.stringBody text) := by
  have other : letter ≠ 'u' := by
    intro same
    rw [same] at known
    exact nomatch known
  rw [Reader.stringBody.eq_def]
  simp [other, known]

theorem stringBody_unit {a b c d : Char} {unit : Nat}
    (read : Reader.hexUnit? a b c d = some unit) (trailing : Reader.isTrailing unit = false)
    (leading : Reader.isLeading unit = false) (text : List Char) :
    Reader.stringBody ('\\' :: 'u' :: a :: b :: c :: d :: text) =
      Reader.prepend (Char.ofNat unit) (Reader.stringBody text) := by
  rw [Reader.stringBody.eq_def]
  simp [read, trailing, leading]

theorem stringBody_plain {c : Char} (quote : c ≠ '"') (backslash : c ≠ '\\')
    (large : ¬ c.toNat < 0x20) (text : List Char) :
    Reader.stringBody (c :: text) = Reader.prepend c (Reader.stringBody text) := by
  rw [Reader.stringBody.eq_def]
  simp [quote, backslash, large]

theorem stringBody_close (text : List Char) : Reader.stringBody ('"' :: text) = .ok ([], text) := by
  rw [Reader.stringBody.eq_def]
  simp

/-- The reader takes an escaped character for the character. -/
theorem stringBody_escapeChar (c : Char) (text : List Char) :
    Reader.stringBody (escapeChar c ++ text) = Reader.prepend c (Reader.stringBody text) := by
  unfold escapeChar
  split
  case isTrue same =>
    subst same
    exact stringBody_letter rfl text
  case isFalse quote =>
  split
  case isTrue same =>
    subst same
    exact stringBody_letter rfl text
  case isFalse backslash =>
  split
  case isTrue same =>
    subst same
    exact stringBody_letter rfl text
  split
  case isTrue same =>
    subst same
    exact stringBody_letter rfl text
  split
  case isTrue same =>
    subst same
    exact stringBody_letter rfl text
  split
  case isTrue same =>
    subst same
    exact stringBody_letter rfl text
  split
  case isTrue same =>
    subst same
    exact stringBody_letter rfl text
  split
  case isTrue small =>
    have trailing : Reader.isTrailing c.toNat = false := by
      simp only [Reader.isTrailing, Bool.and_eq_false_iff, decide_eq_false_iff_not]
      omega
    have leading : Reader.isLeading c.toNat = false := by
      simp only [Reader.isLeading, Bool.and_eq_false_iff, decide_eq_false_iff_not]
      omega
    have read := stringBody_unit (hexUnit?_of_lt small) trailing leading text
    rw [Char.ofNat_toNat] at read
    exact read
  case isFalse large => exact stringBody_plain quote backslash large text

theorem stringBody_escaped (content text : List Char) :
    Reader.stringBody (content.flatMap escapeChar ++ '"' :: text) = .ok (content, text) := by
  induction content with
  | nil => exact stringBody_close text
  | cons c content ih =>
      rw [List.flatMap_cons, List.append_assoc, stringBody_escapeChar, ih]
      rfl

theorem toList_quote (content : String) :
    (quote content).toList = '"' :: (content.toList.flatMap escapeChar ++ ['"']) := by
  simp [quote]

/-- The strings of a map as members of an object. -/
def stringMembers (entries : List (String × String)) : List (String × Json) :=
  entries.map fun entry => (entry.1, .string entry.2)

/-- A member with a string as its value, in compact text. -/
def memberText (entry : String × String) : List Char :=
  (quote entry.1).toList ++ ':' :: (quote entry.2).toList

/-- Members with strings as their values behind each other, up to the end of their object. -/
def membersText : List (String × String) → List Char
  | [] => []
  | [entry] => memberText entry ++ ['}']
  | entry :: entries => memberText entry ++ ',' :: membersText entries

theorem membersText_cons_cons (entry next : String × String) (entries : List (String × String)) :
    membersText (entry :: next :: entries) =
      memberText entry ++ ',' :: membersText (next :: entries) := rfl

theorem memberText_append (entry : String × String) (text : List Char) :
    memberText entry ++ text =
      '"' :: (entry.1.toList.flatMap escapeChar ++
        '"' :: ':' :: ((quote entry.2).toList ++ text)) := by
  simp [memberText, toList_quote]

theorem skipSpaces_cons {c : Char} (solid : Reader.isSpace c = false) (text : List Char) :
    Reader.skipSpaces (c :: text) = c :: text :=
  List.dropWhile_cons_of_neg (by simp [solid])

theorem value_quote (fuel depth : Nat) (content : String) (text : List Char) :
    Reader.value (fuel + 1) depth ((quote content).toList ++ text) =
      .ok (.string content, text) := by
  have body := stringBody_escaped content.toList text
  rw [toList_quote, List.cons_append, List.append_assoc, List.singleton_append, Reader.value,
    skipSpaces_cons (by decide)]
  simp [body, bind, Except.bind]

theorem members_comma (fuel depth : Nat) (entry : String × String) (text : List Char) :
    Reader.members (fuel + 2) depth (memberText entry ++ ',' :: text) =
      (Reader.members (fuel + 1) depth text).map fun step =>
        ((entry.1, .string entry.2) :: step.1, step.2) := by
  have key := stringBody_escaped entry.1.toList (':' :: ((quote entry.2).toList ++ ',' :: text))
  have value := value_quote fuel depth entry.2 (',' :: text)
  rw [Reader.members, memberText_append, skipSpaces_cons (by decide)]
  simp only [key, bind, Except.bind, skipSpaces_cons (show Reader.isSpace ':' = false by decide),
    skipSpaces_cons (show Reader.isSpace ',' = false by decide), value, String.ofList_toList]
  rfl

theorem members_close (fuel depth : Nat) (entry : String × String) (text : List Char) :
    Reader.members (fuel + 2) depth (memberText entry ++ '}' :: text) =
      .ok ([(entry.1, .string entry.2)], text) := by
  have key := stringBody_escaped entry.1.toList (':' :: ((quote entry.2).toList ++ '}' :: text))
  have value := value_quote fuel depth entry.2 ('}' :: text)
  rw [Reader.members, memberText_append, skipSpaces_cons (by decide)]
  simp only [key, bind, Except.bind, skipSpaces_cons (show Reader.isSpace ':' = false by decide),
    skipSpaces_cons (show Reader.isSpace '}' = false by decide), value, String.ofList_toList]

theorem members_membersText {entries : List (String × String)} (nonempty : entries ≠ [])
    {fuel : Nat} (enough : entries.length < fuel) (depth : Nat) (text : List Char) :
    Reader.members fuel depth (membersText entries ++ text) =
      .ok (stringMembers entries, text) := by
  induction entries generalizing fuel with
  | nil => exact absurd rfl nonempty
  | cons entry entries ih =>
      obtain ⟨spare, rfl⟩ : ∃ spare, fuel = spare + 2 :=
        ⟨fuel - 2, by rw [List.length_cons] at enough; omega⟩
      cases entries with
      | nil =>
          rw [membersText, List.append_assoc, List.singleton_append, members_close]
          rfl
      | cons next entries =>
          have left : (next :: entries).length < spare + 1 := by
            rw [List.length_cons] at enough
            omega
          rw [membersText_cons_cons, List.append_assoc, List.cons_append, members_comma,
            ih (by simp) left]
          rfl

theorem length_membersText (entries : List (String × String)) :
    entries.length ≤ (membersText entries).length := by
  induction entries with
  | nil => simp
  | cons entry entries ih =>
      cases entries with
      | nil => simp [membersText]
      | cons next entries =>
          rw [membersText_cons_cons]
          simp only [List.length_cons, List.length_append] at ih ⊢
          omega

theorem toList_compactMembers {entries : List (String × String)} (nonempty : entries ≠ []) :
    (",".intercalate (compactMembers (stringMembers entries))).toList ++ ['}'] =
      membersText entries := by
  induction entries with
  | nil => exact absurd rfl nonempty
  | cons entry entries ih =>
      cases entries with
      | nil => simp [stringMembers, compactMembers, membersText, memberText, compact]
      | cons next entries =>
          have later := ih (by simp)
          simp only [stringMembers, List.map_cons, compactMembers,
            String.intercalate_cons_cons] at later ⊢
          rw [membersText_cons_cons, ← later]
          simp [memberText, compact]

theorem keys_stringMembers (entries : List (String × String)) :
    Entries.keys (stringMembers entries) = Entries.keys entries := by
  simp [Entries.keys, stringMembers, Function.comp_def]

theorem membersText_start {entries : List (String × String)} (nonempty : entries ≠ []) :
    ∃ text, membersText entries = '"' :: text := by
  cases entries with
  | nil => exact absurd rfl nonempty
  | cons entry entries =>
      cases entries with
      | nil => exact ⟨_, memberText_append entry ['}']⟩
      | cons next entries => exact ⟨_, memberText_append entry _⟩

theorem value_object (fuel depth : Nat) (text : List Char) :
    Reader.value (fuel + 1) (depth + 1) ('{' :: '"' :: text) =
      (Reader.members fuel depth ('"' :: text)).map fun step =>
        (.object (Entries.dedup step.1), step.2) := by
  rw [Reader.value, skipSpaces_cons (by decide)]
  simp only [skipSpaces_cons (show Reader.isSpace '"' = false by decide)]
  rfl

/-- The compact text of an object of strings is read back as the object. -/
theorem read_compact_stringMembers {entries : List (String × String)}
    (distinct : (Entries.keys entries).Nodup) :
    read (compact (.object (stringMembers entries))) = .ok (.object (stringMembers entries)) := by
  by_cases empty : entries = []
  · subst empty
    rfl
  · have spelled : (compact (.object (stringMembers entries))).toList =
        '{' :: membersText entries := by
      rw [← toList_compactMembers empty, compact]
      simp
    have merged : Entries.dedup (stringMembers entries) = stringMembers entries :=
      Entries.dedup_of_nodup (by rwa [keys_stringMembers])
    have size := length_membersText entries
    obtain ⟨text, quoted⟩ := membersText_start empty
    have content := members_membersText empty
      (show entries.length < 2 * ('{' :: membersText entries).length + 1 by
        rw [List.length_cons]
        omega) 126 []
    rw [List.append_nil, quoted] at content
    rw [read, spelled, quoted, maxDepth, value_object, content]
    simp [merged, bind, Except.bind, Except.map, Reader.skipSpaces]

end Json
end DesignTokens
