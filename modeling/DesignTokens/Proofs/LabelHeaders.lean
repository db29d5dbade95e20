import DesignTokens.Proofs.Families

/-!
# Headers and labels

Which headers stand in front of a declaration can be said without the labels that are carried from
one declaration to the next: at either level a label has a header unless the nearest earlier name
that has a label has the same one.  The labels of a component token are the keys of its path, as
long as no key has a character of the separator.
-/

namespace DesignTokens
namespace Section

/-! ## Headers without state -/

/--
The header of a name behind earlier names: that of its label, unless the nearest earlier name with
a label has the same one.
-/
def headerBehind (label? : String → Option String) (earlier : List String) (name : String) : String :=
  match label? name with
  | none => ""
  | some label => if (earlier.filterMap label?).getLast? = some label then "" else header label

/-- The headers of a token behind earlier names, and its declaration. -/
def textBehind (kind : SectionKind) (config : Config) (earlier : List String)
    (token : String × TokenValue) : String :=
  let labelAt? position name := label? (kind.stem config.namespaces) config.separator name position
  (if kind = .component then headerBehind (labelAt? 1) earlier token.1 else "") ++
    headerBehind (labelAt? 2) earlier token.1 ++
    (token.1 ++ ": " ++ (Declaration.ofToken kind config token).declared ++ ";\n")

section Unlabelled

variable {label? : String → Option String} {name : String}

/-- A name without a label has no header. -/
theorem headerBehind_of_none (none : label? name = none) (earlier : List String) :
    headerBehind label? earlier name = "" := by
  rw [headerBehind, none]

/-- A name without a label does not count for the names behind it. -/
theorem headerBehind_skip (none : label? name = none) (before between : List String)
    (later : String) :
    headerBehind label? (before ++ name :: between) later =
      headerBehind label? (before ++ between) later := by
  have labels : (before ++ name :: between).filterMap label? =
      (before ++ between).filterMap label? := by
    rw [List.filterMap_append, List.filterMap_append, List.filterMap_cons_none none]
  rw [headerBehind, headerBehind, labels]

end Unlabelled

variable (kind : SectionKind) (config : Config)

/-- What a declaration adds behind earlier ones. -/
theorem entryText_eq_textBehind (earlier : List (String × TokenValue))
    (token : String × TokenValue) :
    entryText
        (lastLabels (filing kind config) (earlier.map (Declaration.ofToken kind config)))
        (labels kind config token.1) (Declaration.ofToken kind config token) =
      textBehind kind config (Entries.keys earlier) token := by
  have last : ∀ label? : String → Option String,
      ((earlier.map (Declaration.ofToken kind config)).filterMap fun declaration =>
        label? declaration.name).getLast? =
          ((Entries.keys earlier).filterMap label?).getLast? := by
    intro label?
    rw [Entries.keys, List.filterMap_map, List.filterMap_map]
    rfl
  have component : headerAfter
      (lastLabels (filing kind config) (earlier.map (Declaration.ofToken kind config))).component
      (labels kind config token.1).component =
        if kind = .component then
          headerBehind (fun name => label? (kind.stem config.namespaces) config.separator name 1)
            (Entries.keys earlier) token.1
        else "" := by
    simp only [lastLabels, filing, last fun name => (labels kind config name).component]
    by_cases components : kind = .component
    · simp only [labels, if_pos components]
      rfl
    · simp only [labels, if_neg components]
      rfl
  have group : headerAfter
      (lastLabels (filing kind config) (earlier.map (Declaration.ofToken kind config))).group
      (labels kind config token.1).group =
        headerBehind (fun name => label? (kind.stem config.namespaces) config.separator name 2)
          (Entries.keys earlier) token.1 := by
    simp only [lastLabels, filing, last fun name => (labels kind config name).group]
    rfl
  rw [entryText, component, group]
  rfl

/-- The labels carried to a token are the last ones of the tokens before it. -/
theorem entryTexts_eq_mapIdx (before tokens : List (String × TokenValue)) :
    entryTexts kind config
        (lastLabels (filing kind config) (before.map (Declaration.ofToken kind config)))
        (tokens.map (Declaration.ofToken kind config)) =
      tokens.mapIdx fun position token =>
        textBehind kind config (Entries.keys (before ++ tokens.take position)) token := by
  induction tokens generalizing before with
  | nil => rfl
  | cons token tokens ih =>
      have carried : (lastLabels (filing kind config)
          (before.map (Declaration.ofToken kind config))).after (labels kind config token.1) =
            lastLabels (filing kind config)
              ((before ++ [token]).map (Declaration.ofToken kind config)) := by
        rw [List.map_append, List.map_singleton, lastLabels_concat]
        rfl
      have name : (Declaration.ofToken kind config token).name = token.1 := rfl
      rw [List.map_cons, entryTexts, name, carried, ih, entryText_eq_textBehind, List.mapIdx_cons]
      simp only [List.take_zero, List.append_nil, List.take_succ_cons, List.append_assoc,
        List.singleton_append]

/--
The text of a section is that of its tokens in order, each behind the header of its component, if
it is a component token, and the header of its group.  At either level there is a header exactly if
there is a label and the nearest earlier token with a label has another one, or there is none; a
token without a label has no header and does not count for those behind it.
-/
theorem headers_at_label_changes (tokens : FlatTokens) :
    (resolve kind config tokens).text =
        String.join (tokens.entries.mapIdx fun position token =>
          textBehind kind config (tokens.keys.take position) token) ∧
      ∀ (label? : String → Option String) (name : String), label? name = none →
        (∀ earlier, headerBehind label? earlier name = "") ∧
          ∀ before between later, headerBehind label? (before ++ name :: between) later =
            headerBehind label? (before ++ between) later := by
  refine ⟨?_, fun label? name none => ⟨headerBehind_of_none none, headerBehind_skip none⟩⟩
  have texts := entryTexts_eq_mapIdx kind config [] tokens.entries
  simp only [List.nil_append, Entries.keys, List.map_take] at texts
  exact congrArg String.join texts

/-- The scale itself has no label, so the greys around it have one header. -/
example :
    (resolve .palette {} (.ofList
      [("--dm-token-palette-gray-10", .text "#fafafa"), ("--dm-token-palette", .text "#000"),
        ("--dm-token-palette-gray-20", .text "#f5f5f5")])).text =
      "\n/* ----------- gray -----------*/\n--dm-token-palette-gray-10: #fafafa;\n" ++
        "--dm-token-palette: #000;\n--dm-token-palette-gray-20: #f5f5f5;\n" := by
  decide +kernel

end Section

/-! ## Labels of component tokens -/

namespace Theme

open Text

/-- The labels of a component token are the pieces of its name behind the namespace. -/
theorem label?_component {config : Config} (separates : config.separator ≠ "") {path : List String}
    (separable : Separable config.separator path) (position : Nat) :
    Section.label? config.namespaces.component config.separator
      (leafName .component config path) position = ("" :: path)[position]? := by
  have pieces : split config.separator (config.separator.intercalate ("" :: path)) = "" :: path := by
    refine split_intercalate separates (List.cons_ne_nil _ _) ?_
    refine List.forall_mem_cons.mpr ⟨fun _ member => absurd member List.not_mem_nil, separable⟩
  have label := label?_leafName .component config path position
  rw [SectionKind.remainder, pieces] at label
  exact label

/--
The component tokens of a theme are its component leaves under their names.  As long as no key has
a character of the separator, the labels of a token are the keys of the path of its leaf, counted
from one; there is none beyond the length of the path.
-/
theorem component_labels_are_keys {config : Config} (separates : config.separator ≠ "")
    {theme : Theme}
    (separable : ∀ leaf ∈ theme.leaves .component, Separable config.separator leaf.1) :
    theme.componentTokens config = .ofList (theme.namedLeaves .component config) ∧
      ∀ leaf ∈ theme.leaves .component,
        let label? := Section.label? config.namespaces.component config.separator
          (leafName .component config leaf.1)
        label? 0 = some "" ∧ (∀ index, label? (index + 1) = leaf.1[index]?) ∧
          ∀ index > leaf.1.length, label? index = none := by
  refine ⟨tokens_eq .component config theme, ?_⟩
  intro leaf member label?
  have labels : ∀ position, label? position = ("" :: leaf.1)[position]? :=
    label?_component separates (separable leaf member)
  refine ⟨labels 0, fun index => labels (index + 1), fun index beyond => ?_⟩
  rw [labels, List.getElem?_eq_none_iff, List.length_cons]
  omega

/-- A theme with components under empty keys and keys that start with others. -/
def layered : Theme where
  name := "light"
  palette := .empty
  common := .empty
  components := .group
    [("button", .group [("", .group [("bg", .leaf (.text "#fff"))])]),
      ("button2", .leaf (.text "#eee"))]
  font := FontMetric.fallback

/-- The separator stands in the root as well, and overlaps itself behind an empty key. -/
theorem component_labels_layered :
    let config : Config := { root := "a--b", separator := "--" }
    (config.separator ≠ "" ∧
      ∀ leaf ∈ layered.leaves .component, Separable config.separator leaf.1) ∧
    (layered.componentTokens config).keys =
        ["--a--b-component--button----bg", "--a--b-component--button2"] ∧
      let label? := Section.label? "--a--b-component" "--" "--a--b-component--button----bg"
      label? 1 = some "button" ∧ label? 2 = some "" ∧ label? 3 = some "bg" ∧ label? 4 = none := by
  intro config
  have separates : config.separator ≠ "" := by decide
  have separable : ∀ leaf ∈ layered.leaves .component, Separable config.separator leaf.1 := by
    decide
  have leaf : (["button", "", "bg"], TokenValue.text "#fff") ∈ layered.leaves .component := by
    decide
  obtain ⟨_, keys, beyond⟩ := (component_labels_are_keys separates separable).2 _ leaf
  exact ⟨⟨separates, separable⟩, by decide, keys 0, keys 1, keys 2, beyond 4 (by decide)⟩

end Theme
end DesignTokens
