import DesignTokens.Proofs.OrderedMaps
import DesignTokens.Stylesheet

/-!
# The last declaration of a name

The sections of the palette stylesheet can declare one name several times.  Its value map then
holds the value of the last declaration, but its reference map holds the target of the last one
that is a reference: a literal replaces the value of a reference and leaves the target behind.
The two maps agree exactly as long as that does not happen.
-/

namespace DesignTokens

namespace Section

variable (kind : SectionKind) (config : Config) (tokens : FlatTokens) (name : String)

/-- The declaration of a name in a section. -/
def declarationOf? : Option Declaration :=
  (tokens.get? name).map fun value => Declaration.ofToken kind config (name, value)

theorem get?_values :
    (resolve kind config tokens).values.get? name =
      (declarationOf? kind config tokens name).map Declaration.value := by
  rw [declarationOf?, Option.map_map]
  exact OrderedMap.get?_mapValues _ tokens name

theorem get?_references :
    (resolve kind config tokens).references.get? name =
      ((declarationOf? kind config tokens name).filter Declaration.isReference).map
        Declaration.value := by
  have found : (resolve kind config tokens).references.get? name =
      (tokens.get? name).bind (Declaration.targetOf? kind config) :=
    OrderedMap.get?_filterMapValues _ tokens name
  rw [found, declarationOf?]
  cases tokens.get? name with
  | none => rfl
  | some value => cases value <;> rfl

end Section

namespace Stylesheet

theorem getLast?_toList {α : Type} (item : Option α) : item.toList.getLast? = item := by
  cases item <;> rfl

section Shared

variable (config : Config) (palette common : FlatTokens) (font : OrderedMap String String)

/-- The declarations of a name in the palette, common and font sections, in order. -/
def declarationsOf (name : String) : List Declaration :=
  (Section.declarationOf? .palette config palette name).toList ++
    (Section.declarationOf? .common config common name).toList ++
    ((font.get? name).map fun value => Declaration.mk name value false).toList

/-- The value map holds the values of the last declarations. -/
theorem get?_values (name : String) :
    (ofShared config palette common font).values.get? name =
      (declarationsOf config palette common font name).getLast?.map Declaration.value := by
  have merged : (ofShared config palette common font).values =
      ((Section.resolve .palette config palette).values.merge
        (Section.resolve .common config common).values).merge font := rfl
  rw [merged, OrderedMap.get?_merge, OrderedMap.get?_merge, Section.get?_values,
    Section.get?_values, declarationsOf, List.getLast?_append, List.getLast?_append,
    getLast?_toList, getLast?_toList, getLast?_toList, Option.map_or, Option.map_or, Option.map_map]
  congr 1
  exact Option.map_id'.symm

/-- The reference map holds the targets of the last declarations that are references. -/
theorem get?_references (name : String) :
    (ofShared config palette common font).references.get? name =
      ((declarationsOf config palette common font name).filter
        Declaration.isReference).getLast?.map Declaration.value := by
  have merged : (ofShared config palette common font).references =
      (Section.resolve .palette config palette).references.merge
        (Section.resolve .common config common).references := rfl
  have literal : ((font.get? name).map fun value =>
      Declaration.mk name value false).toList.filter Declaration.isReference = [] := by
    cases font.get? name <;> rfl
  rw [merged, OrderedMap.get?_merge, Section.get?_references, Section.get?_references,
    declarationsOf, List.filter_append, List.filter_append, literal, List.append_nil,
    ← Option.toList_filter, ← Option.toList_filter, List.getLast?_append, getLast?_toList,
    getLast?_toList, Option.map_or]

/-- The reference map of the palette stylesheet agrees with its value map. -/
structure ReferencesAgree : Prop where
  /-- The target of a reference is the value of its name. -/
  values : ∀ reference ∈ (ofShared config palette common font).references.entries,
    (ofShared config palette common font).values.get? reference.1 = some reference.2
  /-- A name that is last declared as a reference has its target. -/
  kept : ∀ name, ∀ last ∈ (declarationsOf config palette common font name).getLast?,
    last.isReference →
      (name, last.value) ∈ (ofShared config palette common font).references.entries
  /-- A name that is last declared as a literal has no target. -/
  cleared : ∀ name, ∀ last ∈ (declarationsOf config palette common font name).getLast?,
    ¬ last.isReference → name ∉ (ofShared config palette common font).references.keys

end Shared

section Agreement

variable {config : Config} {palette common : FlatTokens} {font : OrderedMap String String}

/-- A name has a target if any of its declarations is a reference. -/
theorem mem_keys_references {name : String} :
    name ∈ (ofShared config palette common font).references.keys ↔
      ∃ declaration ∈ declarationsOf config palette common font name,
        declaration.isReference := by
  rw [← OrderedMap.contains_iff, OrderedMap.contains, get?_references, Option.isSome_map,
    List.getLast?_isSome, ← List.length_pos_iff, List.length_filter_pos_iff]

/-- A name that is last declared as a reference has its target in both maps. -/
theorem mem_references_of_last {name : String} {last : Declaration}
    (ends : last ∈ (declarationsOf config palette common font name).getLast?)
    (reference : last.isReference) :
    (name, last.value) ∈ (ofShared config palette common font).references.entries ∧
      (ofShared config palette common font).values.get? name = some last.value := by
  obtain ⟨front, whole⟩ := List.getLast?_eq_some_iff.mp ends
  rw [← OrderedMap.get?_eq_some_iff, get?_references, get?_values, whole]
  simp [reference]

/-- The entries of the reference map are targets of last declarations, if those of its names are
references. -/
theorem get?_values_of_mem_references
    (lasting : ∀ name ∈ (ofShared config palette common font).references.keys,
      ∀ last ∈ (declarationsOf config palette common font name).getLast?, last.isReference)
    {name target : String}
    (entry : (name, target) ∈ (ofShared config palette common font).references.entries) :
    (ofShared config palette common font).values.get? name = some target := by
  have key : name ∈ (ofShared config palette common font).references.keys :=
    OrderedMap.mem_keys.mpr ⟨target, entry⟩
  obtain ⟨declaration, member, _⟩ := mem_keys_references.mp key
  obtain ⟨last, ends⟩ := Option.isSome_iff_exists.mp
    (List.getLast?_isSome.mpr (List.ne_nil_of_mem member))
  obtain ⟨there, value⟩ := mem_references_of_last ends (lasting name key last ends)
  rw [value, Entries.value_unique (OrderedMap.distinct _) there entry]

/--
A name that is last declared as a reference has its target in the reference map and for its value.
The two maps of a palette stylesheet agree if and only if every name that is ever declared as a
reference is also last declared as one.
-/
theorem references_agree_iff (config : Config) (palette common : FlatTokens)
    (font : OrderedMap String String) :
    (∀ name, ∀ last ∈ (declarationsOf config palette common font name).getLast?,
      last.isReference →
        (name, last.value) ∈ (ofShared config palette common font).references.entries ∧
          (ofShared config palette common font).values.get? name = some last.value) ∧
      (ReferencesAgree config palette common font ↔
        ∀ name, ∀ declaration ∈ declarationsOf config palette common font name,
          declaration.isReference →
            ∀ last ∈ (declarationsOf config palette common font name).getLast?,
              last.isReference) := by
  refine ⟨fun _ _ => mem_references_of_last, fun agree => ?_, fun lasting => ?_⟩
  · intro name declaration member reference last ends
    have key : name ∈ (ofShared config palette common font).references.keys :=
      mem_keys_references.mpr ⟨declaration, member, reference⟩
    exact Decidable.of_not_not fun literal => agree.cleared name last ends literal key
  · have named : ∀ name ∈ (ofShared config palette common font).references.keys,
        ∀ last ∈ (declarationsOf config palette common font name).getLast?, last.isReference := by
      intro name key
      obtain ⟨declaration, member, reference⟩ := mem_keys_references.mp key
      exact lasting name declaration member reference
    exact {
      values := fun _ entry => get?_values_of_mem_references named entry
      kept := fun _ _ ends reference => (mem_references_of_last ends reference).1
      cleared := fun name last ends literal key => literal (named name key last ends) }

/-- A grey of the palette that points at another one. -/
def pointedGray : FlatTokens :=
  .ofList [("--dm-token-palette-gray", .reference ⟨["gray", "20"]⟩)]

/-- A common token of the same name. -/
def solidGray : FlatTokens := .ofList [("--dm-token-palette-gray", .text "solid")]

/-- The literal replaces the value of the reference, and the target stays behind. -/
theorem not_agree_gray :
    (ofShared {} pointedGray solidGray .empty).values.entries =
        [("--dm-token-palette-gray", "solid")] ∧
      (ofShared {} pointedGray solidGray .empty).references.entries =
        [("--dm-token-palette-gray", "--dm-token-palette-gray-20")] ∧
      ¬ ReferencesAgree {} pointedGray solidGray .empty := by
  refine ⟨by decide, by decide, fun agree => ?_⟩
  have lasting := (references_agree_iff {} pointedGray solidGray .empty).2.mp agree
  have replaced : declarationsOf {} pointedGray solidGray .empty "--dm-token-palette-gray" =
      [⟨"--dm-token-palette-gray", "--dm-token-palette-gray-20", true⟩,
        ⟨"--dm-token-palette-gray", "solid", false⟩] := by
    decide
  specialize lasting "--dm-token-palette-gray"
  rw [replaced] at lasting
  exact absurd (lasting _ List.mem_cons_self rfl _ rfl) (by decide)

end Agreement
end Stylesheet
end DesignTokens
