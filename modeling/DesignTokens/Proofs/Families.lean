import DesignTokens.Proofs.LeafLookup
import DesignTokens.Proofs.SectionParts

/-!
# Families of the palette

Labels are counted behind the stem of a namespace.  Nothing is left of the namespace of common and
component tokens there, but `-palette` is left of that of palette tokens, and it counts as two
pieces only if the separator cuts it once.  So palette tokens are grouped by their family, the
first key of their path, for just those separators.
-/

namespace DesignTokens

namespace SectionKind

/-- What a namespace has behind the stem that is taken off before labels are read. -/
def remainder : SectionKind → String
  | .palette => "-palette"
  | .common => ""
  | .component => ""

theorem space_eq_stem (kind : SectionKind) (config : Config) :
    kind.space config.namespaces = kind.stem config.namespaces ++ kind.remainder := by
  cases kind with
  | palette =>
      have last : "-token-palette" = "-token" ++ "-palette" := rfl
      simp [space, stem, remainder, Config.namespaces, Namespaces.ofRoot, last,
        String.append_assoc]
  | common => simp [space, stem, remainder]
  | component => simp [space, stem, remainder]

theorem stem_ne (kind : SectionKind) (config : Config) : kind.stem config.namespaces ≠ "" := by
  cases kind <;> simp [stem, Config.namespaces, Namespaces.ofRoot]

end SectionKind

namespace Theme

open Text

/-! ## Labels of names -/

/-- The labels of a name are pieces of the remainder of its namespace and the keys of its path. -/
theorem label?_leafName (kind : SectionKind) (config : Config) (path : List String)
    (position : Nat) :
    Section.label? (kind.stem config.namespaces) config.separator (leafName kind config path)
        position =
      (split config.separator (config.separator.intercalate (kind.remainder :: path)))[position]? := by
  have spelled : leafName kind config path = kind.stem config.namespaces ++
      config.separator.intercalate (kind.remainder :: path) := by
    rw [leafName_eq, SectionKind.space_eq_stem]
    exact String.intercalate_cons_append
  rw [Section.label?, spelled, eraseFirst_append (kind.stem_ne config)]

/-- The declaration of a leaf. -/
def declarationOf (kind : SectionKind) (config : Config) (leaf : List String × TokenValue) :
    Declaration :=
  Declaration.ofToken kind config (leafName kind config leaf.1, leaf.2)

theorem declarations_of_entries {kind : SectionKind} {config : Config} {theme : Theme}
    (entries : (theme.tokens kind config).entries = theme.namedLeaves kind config) :
    theme.declarations kind config = (theme.leaves kind).map (declarationOf kind config) := by
  rw [declarations, entries, namedLeaves, List.map_map]
  rfl

theorem declarations_eq {kind : SectionKind} {config : Config} {theme : Theme}
    (separates : config.separator ≠ "") (distinct : theme.Distinct)
    (separable : ∀ leaf ∈ theme.leaves kind, Separable config.separator leaf.1) :
    theme.declarations kind config = (theme.leaves kind).map (declarationOf kind config) :=
  declarations_of_entries (entries_tokens separates distinct separable)

/-! ## Separators of the palette -/

/-- The separator cuts `-palette` once. -/
def CutsPaletteOnce (separator : String) : Prop := (split separator "-palette").length = 2

instance (separator : String) : Decidable (CutsPaletteOnce separator) :=
  inferInstanceAs (Decidable (_ = 2))

/-- What `-palette` consists of around a part of it. -/
theorem cut_palette : ∀ start ≤ 8, ∀ size ≤ 8,
    let text := "-palette".toList
    let separator := (text.drop start).take size
    separator = [] ∨ separator = ['t'] ∨ separator = ['e'] ∨
      (piecesFrom separator 0 text).length = 2 ∧
        occurs separator (text.take start ++ separator.dropLast) = false ∧
        occurs separator (text.drop (start + size) ++ separator.dropLast) = false := by
  decide +kernel

/-- A separator in `-palette` is a letter that stands there twice, or the only cut. -/
theorem piecesFrom_palette {separator : List Char} (nonempty : separator ≠ [])
    (inside : occurs separator "-palette".toList = true) :
    separator = ['t'] ∨ separator = ['e'] ∨
      (piecesFrom separator 0 "-palette".toList).length = 2 ∧
        ∃ front back, ∀ tail, piecesFrom separator 0 ("-palette".toList ++ (separator ++ tail)) =
          front :: back :: piecesFrom separator 0 tail := by
  obtain ⟨front, back, spelled⟩ := occurs_iff.mp inside
  have lengths : front.length + separator.length + back.length = 8 := by
    have counted := congrArg List.length spelled
    simpa [Nat.add_assoc] using counted.symm
  have cases := cut_palette front.length (by omega) separator.length (by omega)
  generalize "-palette".toList = text at spelled cases ⊢
  have start : text.take front.length = front := by simp [spelled]
  have between : (text.drop front.length).take separator.length = separator := by simp [spelled]
  have rest : text.drop (front.length + separator.length) = back := by simp [spelled]
  simp only [start, between, rest] at cases
  rcases cases with empty | single | single | ⟨once, ahead, behind⟩
  · exact absurd empty nonempty
  · exact .inl single
  · exact .inr (.inl single)
  · refine .inr (.inr ⟨once, front, back, fun tail => ?_⟩)
    rw [spelled, List.append_assoc, List.append_assoc,
      piecesFrom_absent_separator nonempty ahead, piecesFrom_absent_separator nonempty behind]

theorem cutsPaletteOnce_iff {separator : String} (separates : separator ≠ "") :
    CutsPaletteOnce separator ↔
      (piecesFrom separator.toList 0 "-palette".toList).length = 2 := by
  rw [CutsPaletteOnce, split_eq separates, List.length_map]

/-- Behind a separator that cuts `-palette` once, the third piece is the first one of the rest. -/
theorem exists_split_palette {separator : String} (separates : separator ≠ "")
    (once : CutsPaletteOnce separator) :
    ∃ front back, ∀ tail, split separator ("-palette" ++ separator ++ tail) =
      front :: back :: split separator tail := by
  rw [cutsPaletteOnce_iff separates] at once
  have nonempty : separator.toList ≠ [] := by simpa using separates
  have inside : occurs separator.toList "-palette".toList = true := by
    rw [← Bool.not_eq_false]
    intro absent
    rw [piecesFrom_of_absent absent] at once
    exact absurd once (by decide)
  rcases piecesFrom_palette nonempty inside with single | single | ⟨_, front, back, cut⟩
  · rw [single] at once
    exact absurd once (by decide)
  · rw [single] at once
    exact absurd once (by decide)
  · refine ⟨String.ofList front, String.ofList back, fun tail => ?_⟩
    rw [split_eq separates, split_eq separates, String.toList_append, String.toList_append,
      List.append_assoc, cut]
    rfl

theorem group_leafName (config : Config) (path : List String) :
    (Section.labels .palette config (leafName .palette config path)).group =
      (split config.separator (config.separator.intercalate ("-palette" :: path)))[2]? :=
  label?_leafName .palette config path 2

/-- A separator that cuts `-palette` once leaves the family in the place of the group. -/
theorem group_eq_family {config : Config} (separates : config.separator ≠ "")
    (once : CutsPaletteOnce config.separator) {path : List String}
    (separable : Separable config.separator path) :
    (Section.labels .palette config (leafName .palette config path)).group = path.head? := by
  rw [group_leafName]
  cases path with
  | nil =>
      rw [String.intercalate_singleton, List.head?_nil, List.getElem?_eq_none_iff]
      exact Nat.le_of_eq once
  | cons key path =>
      obtain ⟨front, back, cut⟩ := exists_split_palette separates once
      rw [String.intercalate_cons_cons, cut, split_intercalate separates (by simp) separable]
      rfl

/-- A separator is the only cut of `-palette` if it leaves single keys in the place of the group. -/
theorem cutsPaletteOnce_of_group {config : Config} (separates : config.separator ≠ "")
    (grouped : ∀ key : String, Separable config.separator [key] → '-' ∉ key.toList →
      (Section.labels .palette config (leafName .palette config [key])).group = some key) :
    CutsPaletteOnce config.separator := by
  have nonempty : config.separator.toList ≠ [] := by simpa using separates
  simp only [group_leafName, String.intercalate_cons_cons, String.intercalate_singleton] at grouped
  cases inside : occurs config.separator.toList "-palette".toList with
  | false =>
      -- The empty key ends the name, so there is no third piece for it.
      have none := grouped "" (by simp [Separable, Avoids]) (by simp)
      have short := length_piecesFrom_append nonempty inside
      rw [String.append_empty, split_eq separates, String.toList_append,
        List.getElem?_eq_none (by simpa using short)] at none
      exact absurd none (by simp)
  | true =>
      rcases piecesFrom_palette nonempty inside with single | single | ⟨once, _⟩
      · have same : config.separator = "t" := String.toList_inj.mp single
        rw [same] at grouped
        exact absurd (grouped "b" (by decide) (by decide)) (by decide)
      · have same : config.separator = "e" := String.toList_inj.mp single
        rw [same] at grouped
        exact absurd (grouped "b" (by decide) (by decide)) (by decide)
      · exact (cutsPaletteOnce_iff separates).mpr once

/-! ## Families -/

/-- The family of a palette leaf. -/
def family (leaf : List String × TokenValue) : Option String := leaf.1.head?

/-- The palette tokens of a theme are grouped by their families. -/
structure GroupedByFamily (config : Config) (theme : Theme) : Prop where
  /-- The group label of a token is its family. -/
  label : ∀ leaf ∈ theme.leaves .palette,
    (Section.labels .palette config (leafName .palette config leaf.1)).group = family leaf
  /-- Every run of tokens with one family stands under the header of the family. -/
  text : (theme.resolved .palette config).text =
    String.join ((((theme.leaves .palette).splitBy fun left right =>
      family left == family right).flatMap
        (Section.runParts (declarationOf .palette config) family)).map Section.Part.text)

theorem groupedByFamily {config : Config} {theme : Theme} (separates : config.separator ≠ "")
    (once : CutsPaletteOnce config.separator) (distinct : theme.Distinct)
    (separable : ∀ leaf ∈ theme.leaves .palette, Separable config.separator leaf.1) :
    GroupedByFamily config theme := by
  have label : ∀ leaf ∈ theme.leaves .palette,
      (Section.labels .palette config (leafName .palette config leaf.1)).group = family leaf :=
    fun leaf member => group_eq_family separates once (separable leaf member)
  refine ⟨label, ?_⟩
  rw [text_eq_parts, declarations_eq separates distinct separable]
  congr 2
  have filed : ∀ leaf ∈ theme.leaves .palette,
      Section.filing .palette config (declarationOf .palette config leaf) =
        ⟨none, family leaf⟩ := by
    intro leaf member
    rw [← label leaf member]
    rfl
  cases palette : theme.palette with
  | leaf value =>
      have single : theme.leaves .palette = [([], value)] := by
        rw [leaves, palette, TokenTree.leaves]
      have bare := filed _ (single ▸ List.mem_singleton_self _)
      simp [single, Section.parts, Section.partsFrom, bare, family, Section.headersOf,
        Section.headerParts, Section.runParts, List.splitBy, List.splitBy.loop]
  | group children =>
      refine Section.parts_eq_runs fun leaf member => ⟨filed leaf member, ?_⟩
      have keyed := member
      rw [leaves, palette, TokenTree.leaves] at keyed
      obtain ⟨key, rest, child, path, _⟩ := TokenTree.mem_leavesChildren.mp keyed
      rw [family, path]
      exact Option.some_ne_none key

/-- A theme that has nothing but a palette. -/
def ofPalette (palette : TokenTree) : Theme where
  name := "light"
  palette
  common := .empty
  components := .empty
  font := FontMetric.fallback

theorem distinct_ofPalette {palette : TokenTree} (distinct : palette.Distinct) :
    (ofPalette palette).Distinct where
  palette := distinct
  common := fun _ member => absurd member List.not_mem_nil
  components := ⟨List.nodup_nil, trivial⟩

/-- A theme with one palette token. -/
def oneColour (key : String) : Theme := ofPalette (.group [(key, .leaf (.text "#fff"))])

theorem distinct_oneColour (key : String) : (oneColour key).Distinct :=
  distinct_ofPalette ⟨List.nodup_singleton key, trivial, trivial⟩

/--
Palette tokens are grouped by their families, for all themes without the separator and dashes in
their keys, if and only if the separator cuts `-palette` once.
-/
theorem groupedByFamily_iff {config : Config} (separates : config.separator ≠ "") :
    (∀ theme : Theme, theme.Distinct →
      (∀ leaf ∈ theme.leaves .palette, Separable config.separator leaf.1 ∧
        ∀ key ∈ leaf.1, '-' ∉ key.toList) → GroupedByFamily config theme) ↔
      CutsPaletteOnce config.separator := by
  constructor
  · intro grouped
    refine cutsPaletteOnce_of_group separates fun key separable dashless => ?_
    have only : (oneColour key).leaves .palette = [([key], .text "#fff")] := rfl
    have member : ([key], TokenValue.text "#fff") ∈ (oneColour key).leaves .palette := by
      rw [only]
      exact List.mem_singleton_self _
    have families := grouped (oneColour key) (distinct_oneColour key) (by
      rw [only, List.forall_mem_singleton]
      exact ⟨separable, List.forall_mem_singleton.mpr dashless⟩)
    have label := families.label _ member
    rw [family, List.head?_cons] at label
    exact label
  · intro once theme distinct keys
    exact groupedByFamily separates once distinct fun leaf member => (keys leaf member).1

/-- A theme with two palette tokens of one family. -/
def grays : Theme :=
  ofPalette (.group
    [("gray", .group [("20", .leaf (.text "#eee")), ("30", .leaf (.text "#ddd"))])])

/-- Dashes group the tokens by their family, and underscores by their steps. -/
theorem groupedByFamily_grays :
    ({} : Config).separator ≠ "" ∧ GroupedByFamily {} grays ∧
      (grays.leaves .palette).map (fun leaf => (Section.labels .palette { separator := "_" }
        (leafName .palette { separator := "_" } leaf.1)).group) = [some "20", some "30"] ∧
      ¬ GroupedByFamily { separator := "_" } grays := by
  have separates : ({} : Config).separator ≠ "" := by decide
  have distinct : grays.Distinct := by
    refine distinct_ofPalette ?_
    simp [TokenTree.Distinct, TokenTree.DistinctChildren, Entries.keys]
  have keys : ∀ leaf ∈ grays.leaves .palette, Separable ({} : Config).separator leaf.1 ∧
      ∀ key ∈ leaf.1, '-' ∉ key.toList := by decide +kernel
  have steps : (grays.leaves .palette).map (fun leaf =>
      (Section.labels .palette { separator := "_" }
        (leafName .palette { separator := "_" } leaf.1)).group) = [some "20", some "30"] := by
    decide +kernel
  have families : (grays.leaves .palette).map family = [some "gray", some "gray"] := by decide
  refine ⟨separates, (groupedByFamily_iff separates).mpr (by decide) grays distinct keys, steps,
    fun grouped => ?_⟩
  rw [List.map_congr_left grouped.label, families] at steps
  exact absurd steps (by decide)

end Theme
end DesignTokens
