import DesignTokens.Proofs.LeafNames

/-!
# Namespaces

The namespaces of the three kinds part right behind the root, and none of them is the beginning of
a font name.  So no name has two kinds, and a reference, which points into the palette scale or
among the common tokens, never meets a component token or a font declaration.
-/

namespace DesignTokens

namespace SectionKind

/-- What the namespace of a kind has behind the root. -/
def suffix : SectionKind → String
  | .palette => "-token-palette"
  | .common => "-common"
  | .component => "-component"

theorem space_eq (kind : SectionKind) (config : Config) :
    kind.space config.namespaces = "--" ++ config.root ++ kind.suffix := by
  cases kind <;> rfl

theorem suffix_append_ne {kind other : SectionKind} (differ : kind ≠ other)
    (left right : List Char) : kind.suffix.toList ++ left ≠ other.suffix.toList ++ right := by
  revert differ
  cases kind <;> cases other <;> simp [suffix]

/-- Names of two kinds are different, whatever follows their namespaces. -/
theorem space_append_ne {kind other : SectionKind} (differ : kind ≠ other) (config : Config)
    (left right : String) :
    kind.space config.namespaces ++ left ≠ other.space config.namespaces ++ right := by
  intro same
  rw [space_eq, space_eq, ← String.toList_inj] at same
  simp only [String.toList_append, List.append_assoc] at same
  exact suffix_append_ne differ left.toList right.toList
    (List.append_cancel_left (List.append_cancel_left same))

theorem suffix_not_in_fontName (kind : SectionKind) (metric : FontMetric) :
    Text.occurs kind.suffix.toList metric.declaredName.toList = false := by
  cases kind <;> rcases metric with size | size <;> cases size <;> decide

/-- No font name starts with a namespace. -/
theorem space_append_ne_fontName (kind : SectionKind) (config : Config) (rest : String)
    (metric : FontMetric) : kind.space config.namespaces ++ rest ≠ metric.declaredName := by
  intro same
  have inside : Text.occurs kind.suffix.toList metric.declaredName.toList = true := by
    rw [← same, space_eq]
    exact Text.occurs_iff.mpr ⟨("--" ++ config.root).toList, rest.toList, by simp⟩
  rw [suffix_not_in_fontName] at inside
  exact absurd inside (by decide)

end SectionKind

theorem FontMetrics.mem_keys_declarations {metrics : FontMetrics} {name : String} :
    name ∈ metrics.declarations.keys ↔ ∃ metric ∈ FontMetric.all, name = metric.declaredName := by
  rw [declarations, OrderedMap.mem_keys_ofList]
  simp [Entries.keys, eq_comm]

namespace Theme

/-- No name has two kinds. -/
theorem tokens_disjoint {kind other : SectionKind} (differ : kind ≠ other) {config : Config}
    {theme : Theme} {name : String} (member : name ∈ (theme.tokens kind config).keys) :
    name ∉ (theme.tokens other config).keys := by
  intro there
  obtain ⟨left, name_eq⟩ := space_of_mem_keys member
  obtain ⟨right, same⟩ := space_of_mem_keys there
  exact SectionKind.space_append_ne differ config left right (name_eq.symm.trans same)

/-- No token has the name of a font declaration. -/
theorem tokens_disjoint_font {kind : SectionKind} {config : Config} {theme : Theme}
    {name : String} (member : name ∈ (theme.tokens kind config).keys) (metrics : FontMetrics) :
    name ∉ metrics.declarations.keys := by
  intro there
  obtain ⟨rest, rfl⟩ := space_of_mem_keys member
  obtain ⟨metric, _, same⟩ := FontMetrics.mem_keys_declarations.mp there
  exact SectionKind.space_append_ne_fontName kind config rest metric same

end Theme

namespace Reference

/-- The kind of the tokens that a reference points among. -/
def targetKind (reference : Reference) (kind : SectionKind) : SectionKind :=
  if reference.targetsPalette then .palette
  else
    match kind with
    | .palette => .palette
    | .common => .common
    | .component => .common

theorem targetSpace_eq (reference : Reference) (kind : SectionKind) (spaces : Namespaces) :
    reference.targetSpace kind spaces = (reference.targetKind kind).space spaces := by
  unfold targetSpace targetKind
  split
  · rfl
  · cases kind <;> rfl

theorem targetKind_ne_component (reference : Reference) (kind : SectionKind) :
    reference.targetKind kind ≠ .component := by
  unfold targetKind
  split
  · decide
  · cases kind <;> decide

/-- A target is a name of the kind that the reference points among. -/
theorem target_eq (reference : Reference) (kind : SectionKind) (config : Config) :
    reference.target kind config =
      (reference.targetKind kind).space config.namespaces ++
        (config.separator ++ reference.path config.separator) := by
  rw [target, targetSpace_eq, String.append_assoc]

/-- No component token satisfies a reference. -/
theorem target_not_component (reference : Reference) (kind : SectionKind) (config : Config)
    (theme : Theme) :
    reference.target kind config ∉ (theme.tokens .component config).keys := by
  intro there
  obtain ⟨rest, same⟩ := Theme.space_of_mem_keys there
  rw [target_eq] at same
  exact SectionKind.space_append_ne (reference.targetKind_ne_component kind) config _ rest same

/-- No font declaration satisfies a reference. -/
theorem target_not_font (reference : Reference) (kind : SectionKind) (config : Config)
    (metrics : FontMetrics) :
    reference.target kind config ∉ metrics.declarations.keys := by
  intro there
  obtain ⟨metric, _, same⟩ := FontMetrics.mem_keys_declarations.mp there
  rw [target_eq] at same
  exact SectionKind.space_append_ne_fontName _ config _ metric same

end Reference
end DesignTokens
