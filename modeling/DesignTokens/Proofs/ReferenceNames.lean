import DesignTokens.Proofs.Lint
import DesignTokens.Proofs.Pieces

/-!
# References and the names they reach

A path that can be written behind the marker is read back segment by segment, and its target is
composed of the same pieces in the same order as the name of the leaf at that path.  A reference
written to a leaf therefore never dangles.
-/

namespace DesignTokens

namespace Reference

/--
A path can be written behind the marker: its segments hold no point and no brace, and the dotted
path is not empty and has no marker of its own.
-/
structure Writable (marker : String) (path : List String) : Prop where
  /-- No segment has a point or a brace. -/
  plain : ∀ segment ∈ path, ∀ c ∈ segment.toList, c ≠ '.' ∧ c ≠ '{' ∧ c ≠ '}'
  /-- The dotted path is not empty. -/
  filled : ".".intercalate path ≠ ""
  /-- The dotted path has no marker. -/
  unmarked : Text.contains (".".intercalate path) (lead marker) = false

theorem braced?_eq_some_iff {text inner : List Char} :
    braced? text = some inner ↔ text = '{' :: (inner ++ ['}']) := by
  constructor
  · intro read
    unfold braced? at read
    split at read
    · split at read
      case isTrue closed =>
        obtain ⟨front, rfl⟩ := List.getLast?_eq_some_iff.mp closed
        rw [List.dropLast_concat] at read
        rw [Option.some.inj read]
      case isFalse => simp at read
    · simp at read
  · rintro rfl
    simp [braced?]

/-- The dotted path of a written form, read strictly. -/
theorem strictPath?_braced {marker dotted : String} (filled : dotted ≠ "")
    (plain : dotted.toList.any isBrace = false)
    (unmarked : Text.contains dotted (lead marker) = false) :
    strictPath? marker ("\x7b" ++ lead marker ++ dotted ++ "\x7d") = some dotted := by
  have nonempty : dotted.toList.isEmpty = false := by
    simpa [List.isEmpty_eq_false_iff] using filled
  have spelled : ("\x7b" ++ lead marker ++ dotted ++ "\x7d").toList =
      '{' :: ((lead marker).toList ++ dotted.toList ++ ['}']) := by
    simp
  have inner : braced? ('{' :: ((lead marker).toList ++ dotted.toList ++ ['}'])) =
      some ((lead marker).toList ++ dotted.toList) := braced?_eq_some_iff.mpr rfl
  rw [Text.contains] at unmarked
  simp only [strictPath?, spelled, inner, Option.bind_eq_bind, Option.bind_some,
    Text.after?_append, nonempty, plain, unmarked]
  simp

/-- The strict form is a path behind one marker in braces, and has no other brace or marker. -/
theorem strictPath?_eq_some_iff {marker raw path : String} :
    strictPath? marker raw = some path ↔
      raw = "\x7b" ++ lead marker ++ path ++ "\x7d" ∧ path ≠ "" ∧
        path.toList.any isBrace = false ∧ Text.contains path (lead marker) = false := by
  constructor
  · intro read
    simp only [strictPath?, Option.bind_eq_bind, Option.bind_eq_some_iff] at read
    obtain ⟨inner, braced, chars, behind, read⟩ := read
    split at read
    case isTrue => simp at read
    case isFalse plain =>
      obtain rfl := Option.some.inj read
      rw [braced?_eq_some_iff] at braced
      rw [Text.after?_eq_some_iff] at behind
      simp only [Bool.or_eq_true, not_or, Bool.not_eq_true, List.isEmpty_eq_false_iff] at plain
      refine ⟨String.toList_inj.mp ?_, by simpa using plain.1.1, by simpa using plain.1.2, ?_⟩
      · rw [braced, behind]
        simp
      · rw [Text.contains, String.toList_ofList]
        exact plain.2
  · rintro ⟨rfl, filled, plain, unmarked⟩
    exact strictPath?_braced filled plain unmarked

/-- The path of a text in written form is the one that is read, and loose reading is never tried. -/
theorem parse?_of_strictPath? {marker raw path : String} (marked : marker ≠ "")
    (read : strictPath? marker raw = some path) : parse? marker raw = some (ofDotted path) := by
  obtain ⟨rfl, _⟩ := strictPath?_eq_some_iff.mp read
  have held : Text.contains ("\x7b" ++ lead marker ++ path ++ "\x7d") (lead marker) = true := by
    refine Text.occurs_iff.mpr ⟨['{'], path.toList ++ ['}'], ?_⟩
    simp
  rw [parse?, if_neg (by simp [marked, held]), read, Option.getD_some]

namespace Writable

variable {marker : String} {path : List String}

theorem path_ne (writable : Writable marker path) : path ≠ [] := by
  intro empty
  exact writable.filled (by rw [empty, String.intercalate_nil])

theorem not_isBrace (writable : Writable marker path) :
    (".".intercalate path).toList.any isBrace = false := by
  rw [List.any_eq_false]
  intro c member
  rcases Text.mem_intercalate member with point | ⟨segment, inside, found⟩
  · have same : c = '.' := List.mem_singleton.mp point
    rw [same]
    decide
  · have others := (writable.plain segment inside c found).2
    simp [isBrace, others.1, others.2]

theorem strictPath?_written (writable : Writable marker path) :
    strictPath? marker (written marker ⟨path⟩) = some (".".intercalate path) :=
  strictPath?_braced writable.filled writable.not_isBrace writable.unmarked

/-- The segments of a written form are read back. -/
theorem parse?_written (writable : Writable marker path) (marked : marker ≠ "") :
    parse? marker (written marker ⟨path⟩) = some ⟨path⟩ := by
  have avoids : ∀ segment ∈ path, Text.Avoids ".".toList segment.toList := by
    intro segment member c inside same
    exact (writable.plain segment member c inside).1 (List.mem_singleton.mp same)
  rw [parse?_of_strictPath? marked writable.strictPath?_written, ofDotted,
    Text.split_intercalate (by decide) writable.path_ne avoids]

end Writable

/-- The target of a nonempty path is the name of the leaf there. -/
theorem target_eq_leafName {path : List String} (nonempty : path ≠ []) (kind : SectionKind)
    (config : Config) :
    (⟨path⟩ : Reference).target kind config =
      Theme.leafName ((⟨path⟩ : Reference).targetKind kind) config path := by
  rw [target_eq, Theme.leafName_eq, String.intercalate_cons_of_ne_nil nonempty,
    String.append_assoc]
  rfl

end Reference

namespace SectionKind

/--
Tokens of one kind refer to leaves of another by a path: palette tokens to palette leaves, all
tokens to palette leaves behind `palette`, and common and component tokens to common leaves that
are not behind `palette`.
-/
def RefersTo (kind other : SectionKind) (path : List String) : Prop :=
  match other with
  | .palette => kind = .palette ∨ path.head? = some "palette"
  | .common => (kind = .common ∨ kind = .component) ∧ path.head? ≠ some "palette"
  | .component => False

theorem RefersTo.targetKind_eq {kind other : SectionKind} {path : List String}
    (refers : kind.RefersTo other path) : (⟨path⟩ : Reference).targetKind kind = other := by
  by_cases palette : path.head? = some "palette"
  · cases other <;> simp_all [RefersTo, Reference.targetKind, Reference.targetsPalette]
  · cases other <;> cases kind <;>
      simp_all [RefersTo, Reference.targetKind, Reference.targetsPalette]

theorem RefersTo.shared {kind other : SectionKind} {path : List String}
    (refers : kind.RefersTo other path) : other = .palette ∨ other = .common := by
  cases other with
  | palette => exact Or.inl rfl
  | common => exact Or.inr rfl
  | component => exact absurd refers id

end SectionKind

namespace Theme

theorem leafName_mem_keys {kind : SectionKind} {theme : Theme} {path : List String}
    {value : TokenValue} (leaf : (path, value) ∈ theme.leaves kind) (config : Config) :
    leafName kind config path ∈ (theme.tokens kind config).keys :=
  mem_keys_tokens.mpr ⟨_, leaf, rfl⟩

/--
The written form of the path of a leaf is read as a reference, its target is the name under which
the leaf is declared, and a token with it is not reported.
-/
theorem written_reference_reaches_leaf {config : Config} (marked : config.marker ≠ "")
    (theme : Theme) {kind other : SectionKind} {path : List String} {value : TokenValue}
    (leaf : (path, value) ∈ theme.leaves other)
    (writable : Reference.Writable config.marker path) (refers : kind.RefersTo other path) :
    TokenValue.ofJson config.marker (.string (Reference.written config.marker ⟨path⟩)) =
        .reference ⟨path⟩ ∧
      (⟨path⟩ : Reference).target kind config = leafName other config path ∧
      theme.tokens other config = .ofList (theme.namedLeaves other config) ∧
      leafName other config path ∈ (theme.tokens other config).keys ∧
      ∀ name,
        (name, TokenValue.ofJson config.marker
            (.string (Reference.written config.marker ⟨path⟩))) ∈
              (theme.tokens kind config).entries →
          name ∉ (theme.compile config).danglingReferences.map DanglingReference.name := by
  have read : TokenValue.ofJson config.marker
      (.string (Reference.written config.marker ⟨path⟩)) = .reference ⟨path⟩ := by
    rw [TokenValue.ofJson, writable.parse?_written marked]
  have target : (⟨path⟩ : Reference).target kind config = leafName other config path := by
    rw [Reference.target_eq_leafName writable.path_ne, refers.targetKind_eq]
  have declared : leafName other config path ∈ (theme.tokens other config).keys :=
    leafName_mem_keys leaf config
  refine ⟨read, target, theme.tokens_eq other config, declared, ?_⟩
  intro name token
  rw [read] at token
  rw [reported_iff token, target, not_not]
  rcases refers.shared with rfl | rfl
  · exact Or.inl declared
  · exact Or.inr declared

/-- A theme with a common token that a component token refers to. -/
def bordered (marker : String) : Theme where
  name := "light"
  palette := .empty
  common := .ofList [("border", .ofList [("base", .group [("", .leaf (.number (.whole 1)))])])]
  components := .group [("input", .leaf (.ofJson marker
    (.string (Reference.written marker ⟨["border", "base", ""]⟩))))]
  font := FontMetric.fallback

/-- A marker with braces, an empty separator and an empty key. -/
theorem written_reference_reaches_border :
    let config : Config := { root := "x-common", separator := "", marker := "\x7bt\x7d" }
    config.marker ≠ "" ∧
      (["border", "base", ""], TokenValue.number (.whole 1)) ∈
        (bordered config.marker).leaves .common ∧
      Reference.Writable config.marker ["border", "base", ""] ∧
      SectionKind.component.RefersTo .common ["border", "base", ""] ∧
      "--x-common-componentinput" ∉
        ((bordered config.marker).compile config).danglingReferences.map
          DanglingReference.name := by
  intro config
  have marked : config.marker ≠ "" := by decide
  have leaf : (["border", "base", ""], TokenValue.number (.whole 1)) ∈
      (bordered config.marker).leaves .common := by decide
  have writable : Reference.Writable config.marker ["border", "base", ""] :=
    ⟨by simp, by decide, by decide⟩
  have refers : SectionKind.component.RefersTo .common ["border", "base", ""] :=
    ⟨Or.inr rfl, by simp⟩
  have token : ("--x-common-componentinput", TokenValue.ofJson config.marker
      (.string (Reference.written config.marker ⟨["border", "base", ""]⟩))) ∈
        ((bordered config.marker).tokens .component config).entries := by decide
  exact ⟨marked, leaf, writable, refers,
    (written_reference_reaches_leaf marked _ leaf writable refers).2.2.2.2 _ token⟩

end Theme
end DesignTokens
