import DesignTokens.Proofs.Lint
import Mathlib.Data.List.Lattice

/-!
# Combining loses nothing

The names of palette, common and component tokens and of font declarations are four sets without
a common member, whatever the root and the separator are.  The value map of the palette stylesheet
is therefore made of the entries of its three sections one after the other, and no name stands in
both stylesheets of a theme.
-/

namespace DesignTokens

namespace FontMetrics

theorem entries_declarations (metrics : FontMetrics) :
    metrics.declarations.entries =
      FontMetric.all.map fun metric => (metric.declaredName, (metrics metric).toText) := by
  apply Entries.dedup_of_nodup
  have names : Entries.keys (FontMetric.all.map fun metric =>
      (metric.declaredName, (metrics metric).toText)) =
        FontMetric.all.map FontMetric.declaredName := by
    simp [Entries.keys, Function.comp_def]
  rw [names]
  decide

end FontMetrics

namespace Theme

/-- The names of a theme: those of its palette, common and component tokens and its font names. -/
def nameSets (config : Config) (theme : Theme) : List (List String) :=
  [(theme.paletteTokens config).keys, (theme.commonTokens config).keys,
    (theme.componentTokens config).keys, theme.font.declarations.keys]

theorem disjoint_tokens {kind other : SectionKind} (differ : kind ≠ other) (config : Config)
    (theme : Theme) :
    List.Disjoint (theme.tokens kind config).keys (theme.tokens other config).keys :=
  List.disjoint_left.mpr fun _ => tokens_disjoint differ

theorem disjoint_tokens_font (kind : SectionKind) (config : Config) (theme : Theme) :
    List.Disjoint (theme.tokens kind config).keys theme.font.declarations.keys :=
  List.disjoint_left.mpr fun _ member => tokens_disjoint_font member theme.font

theorem pairwise_disjoint_nameSets (config : Config) (theme : Theme) :
    (theme.nameSets config).Pairwise List.Disjoint := by
  have apart : ∀ kind other : SectionKind, kind ≠ other →
      List.Disjoint (theme.tokens kind config).keys (theme.tokens other config).keys :=
    fun _ _ differ => disjoint_tokens differ config theme
  have font : ∀ kind, List.Disjoint (theme.tokens kind config).keys theme.font.declarations.keys :=
    fun kind => disjoint_tokens_font kind config theme
  simp only [nameSets, List.pairwise_cons, List.forall_mem_cons, List.not_mem_nil, false_imp_iff,
    implies_true, and_true, List.Pairwise.nil]
  exact ⟨⟨apart .palette .common (by decide), apart .palette .component (by decide),
      font .palette⟩, ⟨apart .common .component (by decide), font .common⟩, font .component⟩

theorem keys_values_components (config : Config) (theme : Theme) :
    (theme.compile config).components.values.keys = (theme.tokens .component config).keys :=
  keys_values_resolved .component config theme

/-- No section of the palette stylesheet replaces or moves an entry of an earlier one. -/
theorem entries_values_palette (config : Config) (theme : Theme) :
    (theme.compile config).palette.values.entries =
      (theme.resolved .palette config).values.entries ++
        (theme.resolved .common config).values.entries ++ theme.font.declarations.entries := by
  have sections : ((theme.resolved .palette config).values.merge
      (theme.resolved .common config).values).entries =
        (theme.resolved .palette config).values.entries ++
          (theme.resolved .common config).values.entries := by
    apply OrderedMap.entries_merge_of_disjoint
    intro name member
    rw [keys_values_resolved] at member ⊢
    exact tokens_disjoint (by decide) member
  have font : (theme.compile config).palette.values.entries =
      ((theme.resolved .palette config).values.merge
        (theme.resolved .common config).values).entries ++ theme.font.declarations.entries := by
    apply OrderedMap.entries_merge_of_disjoint
    intro name member
    have tokens : ∀ kind, name ∈ (theme.resolved kind config).values.keys →
        name ∈ (theme.tokens kind config).keys :=
      fun kind there => keys_values_resolved kind config theme ▸ there
    rcases OrderedMap.mem_keys_merge.mp member with palette | common
    · exact tokens_disjoint_font (tokens .palette palette) theme.font
    · exact tokens_disjoint_font (tokens .common common) theme.font
  rw [font, sections]

theorem disjoint_values (config : Config) (theme : Theme) :
    List.Disjoint (theme.compile config).palette.values.keys
      (theme.compile config).components.values.keys := by
  rw [keys_values_components, List.disjoint_left]
  intro name shared component
  rcases mem_keys_values_palette.mp shared with (palette | common) | font
  · exact tokens_disjoint (by decide) palette component
  · exact tokens_disjoint (by decide) common component
  · exact tokens_disjoint_font component theme.font font

/--
The four name sets of a theme are pairwise disjoint, so the palette stylesheet keeps every entry of
its palette, common and font sections in their order and with their values, and the stylesheets of
a theme share no name.
-/
theorem combining_keeps_every_entry (config : Config) (theme : Theme) :
    (theme.nameSets config).Pairwise List.Disjoint ∧
      (theme.compile config).palette.values.entries =
        (Section.resolve .palette config (theme.paletteTokens config)).values.entries ++
          (Section.resolve .common config (theme.commonTokens config)).values.entries ++
          FontMetric.all.map (fun metric => (metric.declaredName, (theme.font metric).toText)) ∧
      (theme.compile config).palette.values.size =
        (theme.paletteTokens config).size + (theme.commonTokens config).size + 6 ∧
      List.Disjoint (theme.compile config).palette.values.keys
        (theme.compile config).components.values.keys := by
  have entries : (theme.compile config).palette.values.entries =
      (Section.resolve .palette config (theme.paletteTokens config)).values.entries ++
        (Section.resolve .common config (theme.commonTokens config)).values.entries ++
        FontMetric.all.map fun metric => (metric.declaredName, (theme.font metric).toText) := by
    rw [← FontMetrics.entries_declarations]
    exact theme.entries_values_palette config
  refine ⟨theme.pairwise_disjoint_nameSets config, entries, ?_, theme.disjoint_values config⟩
  have sizes : ∀ kind tokens, (Section.resolve kind config tokens).values.size = tokens.size :=
    fun kind tokens => OrderedMap.size_mapValues _ tokens
  have font : (FontMetric.all.map fun metric =>
      (metric.declaredName, (theme.font metric).toText)).length = 6 := by
    rw [List.length_map]
    rfl
  rw [OrderedMap.size, entries, List.length_append, List.length_append, font]
  exact congrArg₂ (· + · + 6) (sizes .palette _) (sizes .common _)

end Theme
end DesignTokens
