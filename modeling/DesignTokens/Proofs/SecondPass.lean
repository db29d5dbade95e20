import DesignTokens.Proofs.OneLine

/-!
# A second pass

The values of a section can be taken in again as texts and resolved once more.  Numbers keep their
digits in front of their only point, and targets have no point at all, so neither can hold a marker
that is more than digits and dashes.  Only the compact text of an array or object can, and nothing
else is changed by a second pass.
-/

namespace DesignTokens

namespace Text

/-- A character of numbers in front of their point. -/
def IsNumeral (c : Char) : Prop := c.isDigit = true ∨ c = '-'

/-- Digits and dashes come first, and behind them stands at most one point. -/
def Numeric (text : List Char) : Prop :=
  ∃ whole rest, (∀ c ∈ whole, IsNumeral c) ∧ '.' ∉ rest ∧
    (text = whole ++ rest ∨ text = whole ++ '.' :: rest)

theorem numeric_of_numerals {text : List Char} (numerals : ∀ c ∈ text, IsNumeral c) :
    Numeric text :=
  ⟨text, [], numerals, List.not_mem_nil, Or.inl (List.append_nil text).symm⟩

namespace Numeric

variable {text : List Char}

theorem append (numeric : Numeric text) {unit : List Char} (absent : '.' ∉ unit) :
    Numeric (text ++ unit) := by
  obtain ⟨whole, rest, numerals, fresh, shape⟩ := numeric
  have behind : '.' ∉ rest ++ unit := by simp [fresh, absent]
  refine ⟨whole, rest ++ unit, numerals, behind, ?_⟩
  rcases shape with rfl | rfl
  · exact Or.inl (List.append_assoc _ _ _)
  · exact Or.inr (List.append_assoc _ _ _)

theorem numerals_append (numeric : Numeric text) {front : List Char}
    (numerals : ∀ c ∈ front, IsNumeral c) : Numeric (front ++ text) := by
  obtain ⟨whole, rest, later, fresh, shape⟩ := numeric
  have all : ∀ c ∈ front ++ whole, IsNumeral c := by
    intro c member
    exact (List.mem_append.mp member).elim (numerals c) (later c)
  refine ⟨front ++ whole, rest, all, fresh, ?_⟩
  rcases shape with rfl | rfl
  · exact Or.inl (List.append_assoc _ _ _).symm
  · exact Or.inr (List.append_assoc _ _ _).symm

/-- Whatever stands in front of a point is digits and dashes. -/
theorem numerals_of_point (numeric : Numeric text) {front back : List Char}
    (cut : text = front ++ '.' :: back) : ∀ c ∈ front, IsNumeral c := by
  obtain ⟨whole, rest, numerals, fresh, shape⟩ := numeric
  have inside : ∀ between, whole = front ++ between → ∀ c ∈ front, IsNumeral c := by
    rintro between rfl c member
    exact numerals c (List.mem_append_left between member)
  -- The point of the cut is the one behind the whole part, or it would be a second one.
  rcases shape with plain | pointed
  · rcases List.append_eq_append_iff.mp (plain.symm.trans cut) with
      ⟨between, _, rest_eq⟩ | ⟨between, whole_eq, _⟩
    · exact absurd (rest_eq ▸ List.mem_append_right between List.mem_cons_self) fresh
    · exact inside between whole_eq
  · rcases List.append_eq_append_iff.mp (pointed.symm.trans cut) with
      ⟨between, front_eq, tail⟩ | ⟨between, whole_eq, _⟩
    · cases between with
      | nil =>
          rw [front_eq, List.append_nil]
          exact numerals
      | cons c between =>
          obtain ⟨_, rest_eq⟩ := List.cons.inj tail
          exact absurd (rest_eq ▸ List.mem_append_right between List.mem_cons_self) fresh
    · exact inside between whole_eq

end Numeric

theorem isNumeral_of_mem_digits {number : Nat} {c : Char} (member : c ∈ Nat.toDigits 10 number) :
    IsNumeral c :=
  Or.inl (Nat.isDigit_of_mem_toDigits (by decide) (by decide) member)

theorem numeric_nat (number : Nat) : Numeric (toString number).toList := by
  rw [Nat.toString_eq_ofList_toDigits, String.toList_ofList]
  exact numeric_of_numerals fun _ => isNumeral_of_mem_digits

theorem numeric_int (number : Int) : Numeric (toString number).toList := by
  cases number with
  | ofNat size => exact numeric_nat size
  | negSucc size =>
      rw [show toString (Int.negSucc size) = "-" ++ toString (size + 1) from rfl,
        String.toList_append]
      refine (numeric_nat (size + 1)).numerals_append fun c member => ?_
      exact Or.inr (List.mem_singleton.mp member)

end Text

open Text

theorem NumberStyle.numeric_layOut {digits : List Char} (numerals : ∀ c ∈ digits, IsNumeral c)
    (fresh : '.' ∉ digits) (point : Int) : Numeric (layOut "" digits point).toList := by
  have zeros : ∀ count, ∀ c ∈ List.replicate count '0', c = '0' :=
    fun _ _ member => List.eq_of_mem_replicate member
  unfold layOut
  split
  · refine ⟨['0'], List.replicate (-point).toNat '0' ++ digits, ?_, ?_, Or.inr (by simp)⟩
    · intro c member
      exact Or.inl (by rw [List.mem_singleton.mp member]; decide)
    · intro member
      rcases List.mem_append.mp member with zero | digit
      · exact absurd (zeros _ _ zero) (by decide)
      · exact fresh digit
  · split
    · rw [String.append_empty, String.toList_ofList]
      refine numeric_of_numerals fun c member => ?_
      rcases List.mem_append.mp member with digit | zero
      · exact numerals c digit
      · exact Or.inl (by rw [zeros _ _ zero]; decide)
    · refine ⟨digits.take point.toNat, digits.drop point.toNat, ?_, ?_, Or.inr (by simp)⟩
      · exact fun c member => numerals c (List.mem_of_mem_take member)
      · exact fun member => fresh (List.mem_of_mem_drop member)

theorem JsonNumber.numeric_toText (number : JsonNumber) : Numeric number.toText.toList := by
  cases number with
  | whole value => exact numeric_int value
  | double value =>
      have fresh : '.' ∉ Nat.toDigits 10 (Decimal.shortest stylesheetStyle.tie value).digits := by
        intro member
        exact absurd (Nat.isDigit_of_mem_toDigits (by decide) (by decide) member) (by decide)
      have laidOut := NumberStyle.numeric_layOut (fun _ => isNumeral_of_mem_digits) fresh
        ((Decimal.shortest stylesheetStyle.tie value).exponent +
          (Nat.toDigits 10 (Decimal.shortest stylesheetStyle.tie value).digits).length)
      rw [toText, NumberStyle.render, String.toList_append]
      refine laidOut.numerals_append ?_
      split
      · intro c member
        exact Or.inr (List.mem_singleton.mp member)
      · simp

namespace Reference

/-- A text holds the marker with a point behind it; an empty marker is never held. -/
def Marked (marker text : String) : Prop :=
  marker ≠ "" ∧ Text.contains text (lead marker) = true

instance (marker text : String) : Decidable (Marked marker text) :=
  inferInstanceAs (Decidable (_ ∧ _))

theorem isSome_parse? {marker raw : String} :
    (parse? marker raw).isSome = true ↔ Marked marker raw := by
  unfold parse? Marked
  by_cases blank : marker = ""
  · simp [blank]
  · cases held : Text.contains raw (lead marker) with
    | true => simp [blank]
    | false => simp

theorem not_marked_of_no_point {marker text : String} (absent : '.' ∉ text.toList) :
    ¬ Marked marker text := by
  rintro ⟨_, held⟩
  obtain ⟨front, back, cut⟩ := occurs_iff.mp held
  rw [cut, lead] at absent
  simp at absent

theorem not_marked_of_numeric {marker text : String} (numeric : Numeric text.toList)
    (other : marker = "" ∨ ∃ c ∈ marker.toList, ¬ IsNumeral c) : ¬ Marked marker text := by
  rintro ⟨filled, held⟩
  obtain ⟨c, member, stranger⟩ := other.resolve_left filled
  obtain ⟨front, back, cut⟩ := occurs_iff.mp held
  have spelled : text.toList = (front ++ marker.toList) ++ '.' :: back := by
    simpa [lead] using cut
  exact stranger (numeric.numerals_of_point spelled c (List.mem_append_right front member))

theorem no_point_of_parse? {marker raw : String} {reference : Reference}
    (read : parse? marker raw = some reference) {segment : String}
    (member : segment ∈ reference.segments) : '.' ∉ segment.toList := by
  unfold parse? at read
  split at read
  · simp at read
  · rw [← Option.some.inj read] at member
    exact not_mem_of_mem_split_point member

/-- A target has a point only if the root, the separator or a segment has one. -/
theorem no_point_target {reference : Reference} {config : Config}
    (root : '.' ∉ config.root.toList) (separator : '.' ∉ config.separator.toList)
    (segments : ∀ segment ∈ reference.segments, '.' ∉ segment.toList) (kind : SectionKind) :
    '.' ∉ (reference.target kind config).toList := by
  have space : '.' ∉ ((reference.targetKind kind).space config.namespaces).toList := by
    rw [SectionKind.space_eq]
    cases reference.targetKind kind <;> simp [SectionKind.suffix, root]
  have path : '.' ∉ (reference.path config.separator).toList := by
    intro member
    rcases mem_intercalate member with between | ⟨segment, there, inside⟩
    · exact separator between
    · exact segments segment there inside
  rw [target_eq]
  simp [space, separator, path]

end Reference

open Reference

namespace TokenValue

/-- The value is an array or object whose compact text holds the marker. -/
def Smuggles (marker : String) : TokenValue → Prop
  | .composite json => Marked marker json.compact
  | _ => False

theorem ofJson_string (marker text : String) :
    ofJson marker (.string text) =
      match parse? marker text with
      | some target => .reference target
      | none => .text text := rfl

/-- The value that a token has in a section holds the marker only if it is smuggled in. -/
theorem marked_valueOf_iff {config : Config} (root : '.' ∉ config.root.toList)
    (separator : '.' ∉ config.separator.toList)
    (marker : config.marker = "" ∨ ∃ c ∈ config.marker.toList, ¬ IsNumeral c)
    (kind : SectionKind) (json : Json) :
    Marked config.marker (Declaration.valueOf kind config (ofJson config.marker json)) ↔
      (ofJson config.marker json).Smuggles config.marker := by
  cases json with
  | null =>
      have text : Declaration.valueOf kind config (ofJson config.marker .null) = "null" := rfl
      exact iff_of_false (not_marked_of_no_point (by rw [text]; decide)) id
  | bool value =>
      have text : Declaration.valueOf kind config (ofJson config.marker (.bool value)) =
          if value then "true" else "false" := rfl
      exact iff_of_false (not_marked_of_no_point (by rw [text]; cases value <;> decide)) id
  | number value =>
      have numeric : Numeric (value.toText ++ "px").toList := by
        rw [String.toList_append]
        exact value.numeric_toText.append (by decide)
      exact iff_of_false (not_marked_of_numeric numeric marker) id
  | string text =>
      rw [ofJson_string]
      cases read : parse? config.marker text with
      | some target =>
          have segments : ∀ segment ∈ target.segments, '.' ∉ segment.toList :=
            fun _ => no_point_of_parse? read
          exact iff_of_false
            (not_marked_of_no_point (no_point_target root separator segments kind)) id
      | none =>
          have unmarked : ¬ Marked config.marker text := by
            rw [← isSome_parse?, read]
            decide
          exact iff_of_false unmarked id
  | array items => exact Iff.rfl
  | object members => exact Iff.rfl

end TokenValue

namespace Section

variable {kind : SectionKind} {config : Config} {resolved : Section} {name value : String}

/-- The values of a section taken in again as texts, under their names. -/
def reread (marker : String) (resolved : Section) : FlatTokens :=
  resolved.values.mapValues fun value => TokenValue.ofJson marker (.string value)

/-- A text becomes a reference when it is taken in again exactly if it holds the marker. -/
theorem mem_keys_references_reread :
    name ∈ (resolve kind config (resolved.reread config.marker)).references.keys ↔
      ∃ value, (name, value) ∈ resolved.values.entries ∧ Marked config.marker value := by
  simp only [OrderedMap.mem_keys, resolve, reread, OrderedMap.mem_filterMapValues,
    OrderedMap.mem_mapValues, ← isSome_parse?]
  constructor
  · rintro ⟨_, _, ⟨value, member, rfl⟩, target⟩
    refine ⟨value, member, ?_⟩
    rw [TokenValue.ofJson_string] at target
    cases read : parse? config.marker value with
    | some reference => rfl
    | none => simp [read, Declaration.targetOf?] at target
  · rintro ⟨value, member, read⟩
    obtain ⟨reference, read⟩ := Option.isSome_iff_exists.mp read
    refine ⟨reference.target kind config, .reference reference, ⟨value, member, ?_⟩, rfl⟩
    rw [TokenValue.ofJson_string, read]

theorem mem_values_reread (member : (name, value) ∈ resolved.values.entries)
    (unmarked : ¬ Marked config.marker value) :
    (name, value) ∈ (resolve kind config (resolved.reread config.marker)).values.entries := by
  have read : parse? config.marker value = none := by
    rw [← Option.not_isSome_iff_eq_none, isSome_parse?]
    exact unmarked
  have text : TokenValue.ofJson config.marker (.string value) = .text value := by
    rw [TokenValue.ofJson_string, read]
  exact OrderedMap.mem_mapValues.mpr
    ⟨.text value, OrderedMap.mem_mapValues.mpr ⟨value, member, text⟩, rfl⟩

theorem keys_values_reread :
    (resolve kind config (resolved.reread config.marker)).values.keys = resolved.values.keys := by
  rw [resolve, reread, OrderedMap.keys_mapValues, OrderedMap.keys_mapValues]

/--
A second pass over the values of a section keeps all names in their order.  It finds a reference
exactly where an array or object was whose compact text holds the marker, and changes nothing else.
-/
theorem second_pass_finds_smuggled {config : Config} (root : '.' ∉ config.root.toList)
    (separator : '.' ∉ config.separator.toList)
    (marker : config.marker = "" ∨ ∃ c ∈ config.marker.toList, ¬ (c.isDigit = true ∨ c = '-'))
    (kind : SectionKind) {tokens : FlatTokens}
    (taken : ∀ token ∈ tokens.entries, ∃ json, token.2 = TokenValue.ofJson config.marker json) :
    let first := resolve kind config tokens
    let second := resolve kind config (first.reread config.marker)
    second.values.keys = first.values.keys ∧
      (∀ name, name ∈ second.references.keys ↔
        ∃ json, (name, TokenValue.composite json) ∈ tokens.entries ∧ config.marker ≠ "" ∧
          Text.contains json.compact (lead config.marker) = true) ∧
      ∀ name value, (name, value) ∈ first.values.entries → name ∉ second.references.keys →
        (name, value) ∈ second.values.entries := by
  intro first second
  have smuggled : ∀ name token, (name, token) ∈ tokens.entries →
      (Marked config.marker (Declaration.valueOf kind config token) ↔
        token.Smuggles config.marker) := by
    intro name token member
    obtain ⟨json, rfl⟩ : ∃ json, token = TokenValue.ofJson config.marker json :=
      taken (name, token) member
    exact TokenValue.marked_valueOf_iff root separator marker kind json
  refine ⟨keys_values_reread, ?_, ?_⟩
  · intro name
    rw [mem_keys_references_reread]
    constructor
    · rintro ⟨_, member, marked⟩
      obtain ⟨token, there, rfl⟩ := OrderedMap.mem_mapValues.mp member
      have held := (smuggled name token there).mp marked
      cases token with
      | composite json => exact ⟨json, there, held⟩
      | _ => exact absurd held id
    · rintro ⟨json, there, held⟩
      exact ⟨_, OrderedMap.mem_mapValues.mpr ⟨_, there, rfl⟩, held⟩
  · intro name value member absent
    refine mem_values_reread member fun marked => absent ?_
    exact mem_keys_references_reread.mpr ⟨value, member, marked⟩

/-- A number with a point, a reference and an array that holds a text in the form of one. -/
def mixed (marker : String) : FlatTokens :=
  .ofList (List.map (fun entry => (entry.1, TokenValue.ofJson marker entry.2))
    [("--a", .number (.double ⟨false, 3, -1⟩)), ("--b", .string "\x7bm.palette.gray\x7d"),
      ("--c", .array [.string "\x7bm.x\x7d"])])

theorem second_pass_over_mixed :
    let config : Config := { marker := "m" }
    let first := resolve .common config (mixed config.marker)
    let second := resolve .common config (first.reread config.marker)
    ('.' ∉ config.root.toList ∧ '.' ∉ config.separator.toList ∧
      (∃ c ∈ config.marker.toList, ¬ (c.isDigit = true ∨ c = '-')) ∧
      ∀ token ∈ (mixed config.marker).entries,
        ∃ json, token.2 = TokenValue.ofJson config.marker json) ∧
    "--c" ∈ second.references.keys ∧ "--a" ∉ second.references.keys ∧
      ("--a", "1.5px") ∈ second.values.entries ∧
      ("--b", "--dm-token-palette-palette-gray") ∈ second.values.entries := by
  intro config first second
  have root : '.' ∉ config.root.toList := by decide
  have separator : '.' ∉ config.separator.toList := by decide
  have marker : ∃ c ∈ config.marker.toList, ¬ (c.isDigit = true ∨ c = '-') :=
    ⟨'m', by decide, by decide⟩
  have taken : ∀ token ∈ (mixed config.marker).entries,
      ∃ json, token.2 = TokenValue.ofJson config.marker json := by
    intro token member
    obtain ⟨entry, _, rfl⟩ := List.mem_map.mp (OrderedMap.mem_of_mem_ofList member)
    exact ⟨entry.2, rfl⟩
  obtain ⟨_, found, kept⟩ :=
    second_pass_finds_smuggled root separator (Or.inr marker) .common taken
  have array : "--c" ∈ second.references.keys :=
    (found "--c").mpr ⟨.array [.string "\x7bm.x\x7d"], by decide, by decide, by decide⟩
  have number : "--a" ∉ second.references.keys := by decide
  have reference : "--b" ∉ second.references.keys := by decide
  exact ⟨⟨root, separator, marker, taken⟩, array, number,
    kept "--a" "1.5px" (by decide) number,
    kept "--b" "--dm-token-palette-palette-gray" (by decide) reference⟩

end Section
end DesignTokens
