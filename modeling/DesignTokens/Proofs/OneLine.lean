import DesignTokens.Proofs.ReferenceNames

/-!
# Texts without line breaks

Numbers and compact JSON are written on one line whatever they hold, since line breaks inside
strings are escaped.  So the value of a token has a line break only if its own text or the path of
its reference has one.
-/

namespace DesignTokens

namespace Text

@[simp]
theorem oneLine_append {left right : String} :
    OneLine (left ++ right) ↔ OneLine left ∧ OneLine right := by
  simp [OneLine, not_or]

theorem oneLine_ite {condition : Prop} [Decidable condition] {left right : String}
    (first : OneLine left) (second : OneLine right) :
    OneLine (if condition then left else right) := by
  split
  · exact first
  · exact second

theorem oneLine_intercalate {separator : String} {segments : List String}
    (between : OneLine separator) (within : ∀ segment ∈ segments, OneLine segment) :
    OneLine (separator.intercalate segments) := by
  intro member
  rcases mem_intercalate member with inside | ⟨segment, there, inside⟩
  · exact between inside
  · exact within segment there inside

theorem oneLine_ofList {text : List Char} (absent : '\n' ∉ text) : OneLine (String.ofList text) := by
  rwa [OneLine, String.toList_ofList]

theorem oneLine_of_mem_split {separator text piece : String} (whole : OneLine text)
    (member : piece ∈ split separator text) : OneLine piece :=
  fun inside => whole (mem_of_mem_split member inside)

theorem lineBreak_not_mem_digits (number : Nat) : '\n' ∉ Nat.toDigits 10 number := by
  intro member
  exact absurd (Nat.isDigit_of_mem_toDigits (by decide) (by decide) member) (by decide)

theorem oneLine_nat (number : Nat) : OneLine (toString number) := by
  rw [Nat.toString_eq_ofList_toDigits]
  exact oneLine_ofList (lineBreak_not_mem_digits number)

theorem oneLine_int (number : Int) : OneLine (toString number) := by
  cases number with
  | ofNat size => exact oneLine_nat size
  | negSucc size => exact oneLine_append.mpr ⟨by decide, oneLine_nat (size + 1)⟩

end Text

open Text

theorem NumberStyle.oneLine_layOut {wholeEnd : String} (ending : OneLine wholeEnd)
    {digits : List Char} (absent : '\n' ∉ digits) (point : Int) :
    OneLine (layOut wholeEnd digits point) := by
  have zeros : ∀ count, '\n' ∉ List.replicate count '0' := by
    intro count member
    exact absurd (List.eq_of_mem_replicate member) (by decide)
  unfold layOut
  split
  · refine oneLine_append.mpr ⟨by decide, oneLine_ofList ?_⟩
    exact fun member => (List.mem_append.mp member).elim (zeros _) absent
  · split
    · refine oneLine_append.mpr ⟨oneLine_ofList ?_, ending⟩
      exact fun member => (List.mem_append.mp member).elim absent (zeros _)
    · refine oneLine_append.mpr ⟨oneLine_append.mpr ⟨oneLine_ofList ?_, by decide⟩,
        oneLine_ofList ?_⟩
      · exact fun member => absent (List.mem_of_mem_take member)
      · exact fun member => absent (List.mem_of_mem_drop member)

theorem NumberStyle.oneLine_layOutExponent {digits : List Char} (absent : '\n' ∉ digits)
    (point : Int) : OneLine (layOutExponent digits point) := by
  have head : OneLine (String.ofList (digits.take 1)) :=
    oneLine_ofList fun member => absent (List.mem_of_mem_take member)
  have fraction : OneLine (String.ofList (digits.drop 1)) :=
    oneLine_ofList fun member => absent (List.mem_of_mem_drop member)
  have size : OneLine (toString (point - 1).natAbs) := oneLine_nat _
  have behind := oneLine_append.mpr ⟨show OneLine "." by decide, fraction⟩
  unfold layOutExponent
  simp only [oneLine_append]
  exact ⟨⟨⟨head, oneLine_ite (by decide) behind⟩, oneLine_ite (by decide) (by decide)⟩, size⟩

theorem NumberStyle.oneLine_render {style : NumberStyle} (ending : OneLine style.wholeEnd)
    (d : Double) : OneLine (style.render d) := by
  have absent := lineBreak_not_mem_digits (Decimal.shortest style.tie d).digits
  unfold render
  rw [oneLine_append]
  exact ⟨oneLine_ite (by decide) (by decide),
    oneLine_ite (oneLine_layOut ending absent _) (oneLine_layOutExponent absent _)⟩

theorem JsonNumber.oneLine_toText (number : JsonNumber) : OneLine number.toText := by
  cases number with
  | whole value => exact oneLine_int value
  | double value => exact NumberStyle.oneLine_render (by decide) value

theorem JsonNumber.oneLine_toJsonText (number : JsonNumber) : OneLine number.toJsonText := by
  cases number with
  | whole value => exact oneLine_int value
  | double value => exact NumberStyle.oneLine_render (by decide) value

namespace Json

theorem digitChar_ne_lineBreak : ∀ digit < 16, '\n' ≠ Nat.digitChar digit := by
  decide

theorem lineBreak_not_mem_escapeChar (c : Char) : '\n' ∉ escapeChar c := by
  have letter : ∀ escaped, '\n' ≠ escaped → '\n' ∉ ['\\', escaped] := by
    intro escaped differ
    simp [differ]
  unfold escapeChar
  split
  · decide
  split
  · decide
  split
  · decide
  split
  · decide
  split
  · decide
  split
  · decide
  split
  · decide
  split
  · have high := digitChar_ne_lineBreak (c.toNat / 16) (by omega)
    have low := digitChar_ne_lineBreak (c.toNat % 16) (by omega)
    simp [high, low]
  · rename_i lineBreak _ _ _
    simpa using Ne.symm lineBreak

theorem oneLine_quote (text : String) : OneLine (quote text) := by
  have absent : '\n' ∉ text.toList.flatMap escapeChar := by
    intro member
    obtain ⟨c, _, inside⟩ := List.mem_flatMap.mp member
    exact lineBreak_not_mem_escapeChar c inside
  exact oneLine_append.mpr
    ⟨oneLine_append.mpr ⟨by decide, oneLine_ofList absent⟩, by decide⟩

mutual

/-- Compact text stands on one line. -/
theorem oneLine_compact (json : Json) : OneLine (compact json) := by
  match json with
  | .null => decide
  | .bool value => cases value <;> decide
  | .number value => exact value.oneLine_toJsonText
  | .string value => exact oneLine_quote value
  | .array items =>
      exact oneLine_append.mpr ⟨oneLine_append.mpr ⟨by decide,
        oneLine_intercalate (by decide) (oneLine_compactItems items)⟩, by decide⟩
  | .object members =>
      exact oneLine_append.mpr ⟨oneLine_append.mpr ⟨by decide,
        oneLine_intercalate (by decide) (oneLine_compactMembers members)⟩, by decide⟩

theorem oneLine_compactItems (items : List Json) : ∀ text ∈ compactItems items, OneLine text := by
  match items with
  | [] => exact fun text member => absurd member List.not_mem_nil
  | item :: items =>
      intro text member
      rcases List.mem_cons.mp member with rfl | later
      · exact oneLine_compact item
      · exact oneLine_compactItems items text later

theorem oneLine_compactMembers (members : List (String × Json)) :
    ∀ text ∈ compactMembers members, OneLine text := by
  match members with
  | [] => exact fun text member => absurd member List.not_mem_nil
  | (key, value) :: members =>
      intro text member
      rcases List.mem_cons.mp member with rfl | later
      · exact oneLine_append.mpr
          ⟨oneLine_append.mpr ⟨oneLine_quote key, by decide⟩, oneLine_compact value⟩
      · exact oneLine_compactMembers members text later

end

end Json

namespace Reference

theorem oneLine_path {reference : Reference} {separator : String} (between : OneLine separator)
    (within : ∀ segment ∈ reference.segments, OneLine segment) :
    OneLine (reference.path separator) :=
  oneLine_intercalate between within

theorem oneLine_strictPath? {marker raw path : String} (whole : OneLine raw)
    (read : strictPath? marker raw = some path) : OneLine path := by
  rw [(strictPath?_eq_some_iff.mp read).1, oneLine_append, oneLine_append] at whole
  exact whole.1.2

theorem oneLine_looseText {raw : String} (marker : String) (whole : OneLine raw) :
    OneLine (looseText marker raw) := by
  intro member
  have kept := mem_of_mem_erase member
  rw [String.toList_ofList] at kept
  exact whole (List.mem_filter.mp kept).1

end Reference

namespace TokenValue

/-- The strings of a token have no line break; arrays and objects may have any. -/
def OneLine : TokenValue → Prop
  | .text value => Text.OneLine value
  | .reference target => ∀ segment ∈ target.segments, Text.OneLine segment
  | _ => True

/-- A string without a line break becomes a token without one. -/
theorem oneLine_ofJson_string {raw : String} (marker : String) (whole : Text.OneLine raw) :
    OneLine (ofJson marker (.string raw)) := by
  rw [ofJson]
  cases read : Reference.parse? marker raw with
  | none => exact whole
  | some target =>
      rw [Reference.parse?] at read
      split at read
      · simp at read
      · rw [← Option.some.inj read]
        intro segment member
        refine oneLine_of_mem_split ?_ member
        cases strict : Reference.strictPath? marker raw with
        | none => exact Reference.oneLine_looseText marker whole
        | some path => exact Reference.oneLine_strictPath? whole strict

theorem oneLine_literal {value : TokenValue} (whole : value.OneLine) {separator : String}
    (between : Text.OneLine separator) : Text.OneLine (value.literal separator) := by
  cases value with
  | number value => exact value.oneLine_toText
  | text value => exact whole
  | reference target => exact target.oneLine_path between whole
  | bool value => exact oneLine_ite (by decide) (by decide)
  | null => exact (by decide : Text.OneLine "null")
  | composite json => exact json.oneLine_compact

end TokenValue

namespace SectionKind

theorem oneLine_space (kind : SectionKind) {config : Config} (root : OneLine config.root) :
    OneLine (kind.space config.namespaces) := by
  rw [space_eq]
  refine oneLine_append.mpr ⟨oneLine_append.mpr ⟨by decide, root⟩, ?_⟩
  cases kind <;> decide

end SectionKind

namespace Reference

theorem oneLine_target {reference : Reference} {config : Config} (root : OneLine config.root)
    (between : OneLine config.separator)
    (within : ∀ segment ∈ reference.segments, OneLine segment) (kind : SectionKind) :
    OneLine (reference.target kind config) := by
  rw [target_eq]
  exact oneLine_append.mpr ⟨SectionKind.oneLine_space _ root,
    oneLine_append.mpr ⟨between, oneLine_path between within⟩⟩

end Reference

namespace Declaration

theorem oneLine_valueOf {value : TokenValue} (whole : value.OneLine) {config : Config}
    (root : OneLine config.root) (between : OneLine config.separator) (kind : SectionKind) :
    OneLine (valueOf kind config value) := by
  cases value with
  | number value => exact oneLine_append.mpr ⟨value.oneLine_toText, by decide⟩
  | reference target => exact target.oneLine_target root between whole kind
  | text value => exact whole
  | bool value => exact TokenValue.oneLine_literal whole between
  | null => exact TokenValue.oneLine_literal whole between
  | composite json => exact TokenValue.oneLine_literal whole between

end Declaration
end DesignTokens
