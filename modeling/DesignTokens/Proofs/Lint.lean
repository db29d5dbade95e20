import DesignTokens.Proofs.Namespaces
import Mathlib.Data.List.Basic

/-!
# The lint is exact

Merging sections loses and mixes nothing, because no name has two kinds.  The lint therefore
reports exactly the references among the tokens whose target is the name of no palette and no
common token, each of them once.
-/

namespace DesignTokens

/-- The kinds in the order of their tokens. -/
def SectionKind.all : List SectionKind := [.palette, .common, .component]

namespace Theme

/-- The resolved tokens of a kind. -/
def resolved (kind : SectionKind) (config : Config) (theme : Theme) : Section :=
  Section.resolve kind config (theme.tokens kind config)

theorem keys_values_resolved (kind : SectionKind) (config : Config) (theme : Theme) :
    (theme.resolved kind config).values.keys = (theme.tokens kind config).keys :=
  OrderedMap.keys_mapValues _ _

theorem mem_keys_of_mem_references {kind : SectionKind} {config : Config} {theme : Theme}
    {name : String} (member : name ∈ (theme.resolved kind config).references.keys) :
    name ∈ (theme.tokens kind config).keys :=
  OrderedMap.mem_keys_of_mem_filterMapValues member

/-- The names of all tokens are different. -/
theorem nodup_keys_tokens (config : Config) (theme : Theme) :
    (SectionKind.all.flatMap fun kind => (theme.tokens kind config).keys).Nodup := by
  have apart : ∀ {kind other : SectionKind}, kind ≠ other →
      ∀ left ∈ (theme.tokens kind config).keys, ∀ right ∈ (theme.tokens other config).keys,
        left ≠ right := by
    intro kind other differ left member right there same
    exact tokens_disjoint differ member (same ▸ there)
  have distinct : ∀ kind, (theme.tokens kind config).keys.Nodup :=
    fun kind => (theme.tokens kind config).distinct
  have later : ((theme.tokens .common config).keys ++ (theme.tokens .component config).keys).Nodup :=
    List.nodup_append.mpr ⟨distinct .common, distinct .component, apart (by decide)⟩
  simp only [SectionKind.all, List.flatMap_cons, List.flatMap_nil, List.append_nil]
  refine List.nodup_append.mpr ⟨distinct .palette, later, ?_⟩
  intro left member right there
  rcases List.mem_append.mp there with there | there
  · exact apart (by decide) left member right there
  · exact apart (by decide) left member right there

theorem entries_references_palette (config : Config) (theme : Theme) :
    (theme.compile config).palette.references.entries =
      (theme.resolved .palette config).references.entries ++
        (theme.resolved .common config).references.entries := by
  apply OrderedMap.entries_merge_of_disjoint
  intro name member there
  have palette : name ∈ (theme.tokens .palette config).keys := mem_keys_of_mem_references member
  have common : name ∈ (theme.tokens .common config).keys := mem_keys_of_mem_references there
  exact tokens_disjoint (by decide) palette common

theorem references_components (config : Config) (theme : Theme) :
    (theme.compile config).components.references =
      (theme.resolved .component config).references := rfl

theorem mem_keys_values_palette {config : Config} {theme : Theme} {name : String} :
    name ∈ (theme.compile config).palette.values.keys ↔
      (name ∈ (theme.tokens .palette config).keys ∨ name ∈ (theme.tokens .common config).keys) ∨
        name ∈ theme.font.declarations.keys := by
  have merged : (theme.compile config).palette.values =
      ((theme.resolved .palette config).values.merge (theme.resolved .common config).values).merge
        theme.font.declarations := rfl
  rw [merged, OrderedMap.mem_keys_merge, OrderedMap.mem_keys_merge, keys_values_resolved,
    keys_values_resolved]

/-- A palette or common token has the name. -/
def Declares (config : Config) (theme : Theme) (name : String) : Prop :=
  name ∈ (theme.tokens .palette config).keys ∨ name ∈ (theme.tokens .common config).keys

instance (config : Config) (theme : Theme) (name : String) :
    Decidable (theme.Declares config name) :=
  inferInstanceAs (Decidable (_ ∨ _))

/-- Both stylesheets together declare a target exactly if a palette or common token has it. -/
theorem declares_target (config : Config) (theme : Theme) (kind : SectionKind)
    (reference : Reference) :
    (theme.compile config).declares (reference.target kind config) = true ↔
      theme.Declares config (reference.target kind config) := by
  have components : (theme.compile config).components.values.keys =
      (theme.tokens .component config).keys := keys_values_resolved .component config theme
  rw [CompiledTheme.declares, Bool.or_eq_true, OrderedMap.contains_iff, OrderedMap.contains_iff,
    mem_keys_values_palette, components, Declares]
  constructor
  · rintro ((shared | font) | component)
    · exact shared
    · exact absurd font (reference.target_not_font kind config _)
    · exact absurd component (reference.target_not_component kind config theme)
  · exact fun shared => Or.inl (Or.inl shared)

/-- The report about a token of a kind, if it is a reference without a declared target. -/
def dangling? (config : Config) (theme : Theme) (kind : SectionKind)
    (token : String × TokenValue) : Option DanglingReference :=
  match token.2 with
  | .reference reference =>
      if theme.Declares config (reference.target kind config) then none
      else some ⟨theme.name, token.1, reference.target kind config⟩
  | _ => none

/-- The reports about the tokens of a kind, in their order. -/
def danglingOf (config : Config) (theme : Theme) (kind : SectionKind) : List DanglingReference :=
  (theme.tokens kind config).entries.filterMap (theme.dangling? config kind)

theorem dangling?_eq_some_iff {config : Config} {theme : Theme} {kind : SectionKind}
    {token : String × TokenValue} {report : DanglingReference} :
    theme.dangling? config kind token = some report ↔
      ∃ reference, token.2 = .reference reference ∧
        ¬ theme.Declares config (reference.target kind config) ∧
        report = ⟨theme.name, token.1, reference.target kind config⟩ := by
  obtain ⟨name, value⟩ := token
  cases value with
  | reference reference =>
      by_cases declared : theme.Declares config (reference.target kind config)
      · simp [dangling?, declared]
      · simp [dangling?, declared, eq_comm]
  | _ => simp [dangling?]

/-- Looking up the references of a kind finds the reports about its tokens. -/
theorem filterMap_references (config : Config) (theme : Theme) (kind : SectionKind) :
    ((theme.resolved kind config).references.entries.filterMap fun reference =>
        if (theme.compile config).declares reference.2 then none
        else some (DanglingReference.mk theme.name reference.1 reference.2)) =
      theme.danglingOf config kind := by
  simp only [resolved, Section.resolve, OrderedMap.filterMapValues, List.filterMap_filterMap]
  apply List.filterMap_congr
  rintro ⟨name, value⟩ _
  cases value with
  | reference reference =>
      have same := theme.declares_target config kind reference
      by_cases declared : theme.Declares config (reference.target kind config)
      · simp [Declaration.targetOf?, dangling?, declared, same.mpr declared]
      · have absent := mt same.mp declared
        simp [Declaration.targetOf?, dangling?, declared, absent]
  | _ => rfl

theorem danglingReferences_eq (config : Config) (theme : Theme) :
    (theme.compile config).danglingReferences =
      SectionKind.all.flatMap (theme.danglingOf config) := by
  have name : (theme.compile config).name = theme.name := rfl
  rw [CompiledTheme.danglingReferences, entries_references_palette, references_components, name,
    List.filterMap_append, List.filterMap_append, filterMap_references, filterMap_references,
    filterMap_references]
  simp [SectionKind.all]

/-- A token with a reference is reported exactly if the target is not declared. -/
theorem reported_iff {config : Config} {theme : Theme} {kind : SectionKind} {name : String}
    {reference : Reference}
    (token : (name, TokenValue.reference reference) ∈ (theme.tokens kind config).entries) :
    name ∈ (theme.compile config).danglingReferences.map DanglingReference.name ↔
      ¬ theme.Declares config (reference.target kind config) := by
  rw [danglingReferences_eq]
  constructor
  · intro reported
    obtain ⟨report, listed, named⟩ := List.mem_map.mp reported
    obtain ⟨other, _, found⟩ := List.mem_flatMap.mp listed
    obtain ⟨⟨head, value⟩, there, image⟩ := List.mem_filterMap.mp found
    obtain ⟨pointer, value_eq, dangles, rfl⟩ := dangling?_eq_some_iff.mp image
    subst named
    subst value_eq
    have first : head ∈ (theme.tokens kind config).keys := OrderedMap.mem_keys.mpr ⟨_, token⟩
    have second : head ∈ (theme.tokens other config).keys := OrderedMap.mem_keys.mpr ⟨_, there⟩
    have same : kind = other := by
      by_cases same : kind = other
      · exact same
      · exact absurd second (tokens_disjoint same first)
    subst same
    have values := Entries.value_unique (theme.tokens kind config).distinct token there
    rw [TokenValue.reference.inj values]
    exact dangles
  · intro dangles
    refine List.mem_map.mpr ⟨⟨theme.name, name, reference.target kind config⟩, ?_, rfl⟩
    refine List.mem_flatMap.mpr ⟨kind, by cases kind <;> decide, ?_⟩
    exact List.mem_filterMap.mpr
      ⟨_, token, dangling?_eq_some_iff.mpr ⟨reference, rfl, dangles, rfl⟩⟩

theorem map_filterMap_sublist {α β γ : Type} {image : α → Option β} {left : β → γ} {right : α → γ}
    (agree : ∀ item result, image item = some result → left result = right item) (items : List α) :
    ((items.filterMap image).map left).Sublist (items.map right) := by
  induction items with
  | nil => exact List.Sublist.refl []
  | cons item items ih =>
      cases found : image item with
      | none =>
          rw [List.filterMap_cons_none found]
          exact ih.cons (right item)
      | some result =>
          rw [List.filterMap_cons_some found, List.map_cons, List.map_cons,
            agree item result found]
          exact ih.cons_cons (right item)

theorem names_danglingOf_sublist (config : Config) (theme : Theme) (kind : SectionKind) :
    ((theme.danglingOf config kind).map DanglingReference.name).Sublist
      (theme.tokens kind config).keys := by
  apply map_filterMap_sublist
  intro token report found
  obtain ⟨reference, _, _, rfl⟩ := dangling?_eq_some_iff.mp found
  rfl

theorem nodup_names_dangling (config : Config) (theme : Theme) :
    ((SectionKind.all.flatMap (theme.danglingOf config)).map DanglingReference.name).Nodup := by
  have kept : ((SectionKind.all.flatMap (theme.danglingOf config)).map
      DanglingReference.name).Sublist
        (SectionKind.all.flatMap fun kind => (theme.tokens kind config).keys) := by
    simp only [SectionKind.all, List.flatMap_cons, List.flatMap_nil, List.append_nil,
      List.map_append]
    exact (names_danglingOf_sublist config theme .palette).append
      ((names_danglingOf_sublist config theme .common).append
        (names_danglingOf_sublist config theme .component))
  exact kept.nodup (theme.nodup_keys_tokens config)

/--
The lint reports the references without a declared palette or common token in the order of the
tokens, none of them twice; component tokens and font declarations satisfy no reference.
-/
theorem danglingReferences_exact (config : Config) (theme : Theme) :
    (theme.compile config).danglingReferences =
        SectionKind.all.flatMap (theme.danglingOf config) ∧
      ((theme.compile config).danglingReferences.map DanglingReference.name).Nodup ∧
      ∀ (kind : SectionKind) (reference : Reference),
        reference.target kind config ∉ (theme.tokens .component config).keys ∧
          reference.target kind config ∉ theme.font.declarations.keys := by
  refine ⟨theme.danglingReferences_eq config, ?_, ?_⟩
  · rw [danglingReferences_eq]
    exact theme.nodup_names_dangling config
  · intro kind reference
    exact ⟨reference.target_not_component kind config theme,
      reference.target_not_font kind config theme.font⟩

end Theme
end DesignTokens
