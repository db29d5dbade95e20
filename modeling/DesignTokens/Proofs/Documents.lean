import DesignTokens.Proofs.Attempts
import DesignTokens.Proofs.OrderedMaps
import DesignTokens.Theme

/-!
# Which token documents are taken in

A document is refused if its text is no JSON, if it has no theme set or if one of its themes is no
object.  All other documents are taken in, with a theme for every entry of the theme set, and all
trees of a theme are taken in from values of its object.
-/

namespace DesignTokens

/-! ## Themes -/

namespace Theme

variable {config : Config} {name : String} {value : Json}

theorem ofJson_eq_ok {theme : Theme} (taken : ofJson config name value = .ok theme) :
    value.kind = .object ∧ theme.name = name := by
  cases value with
  | object members =>
      cases taken
      exact ⟨rfl, rfl⟩
  | _ => exact nomatch taken

theorem ofJson_eq_error_iff {cause : TokenError} :
    ofJson config name value = .error cause ↔
      value.kind ≠ .object ∧ cause = .invalidTheme name := by
  cases value with
  | object members => simp [ofJson, Json.kind]
  | _ => simp [ofJson, Json.kind, eq_comm]

theorem parts_of_ofJson {theme : Theme} (taken : ofJson config name value = .ok theme) :
    theme.palette = part config value "palette" ∧
      theme.components = part config value "components" := by
  cases value with
  | object members =>
      cases taken
      exact ⟨rfl, rfl⟩
  | _ => exact nomatch taken

/-- The common categories of a theme that is read are the configured ones that are objects. -/
theorem mem_common_iff {json : Json} {theme : Theme}
    (read : ofJson config name json = .ok theme) {category : String}
    {groups : OrderedMap String TokenTree} :
    (category, groups) ∈ theme.common.entries ↔
      category ∈ config.categories ∧ groups? config json category = some groups := by
  unfold ofJson at read
  split at read
  case h_2 => simp at read
  case h_1 members =>
    obtain rfl := Except.ok.inj read
    have found : ∀ {category groups},
        (category, groups) ∈ (config.categories.filterMap fun category =>
          (groups? config (.object members) category).map fun groups => (category, groups)) ↔
            category ∈ config.categories ∧
              groups? config (.object members) category = some groups := by
      intro category groups
      simp only [List.mem_filterMap, Option.map_eq_some_iff, Prod.mk.injEq]
      constructor
      · rintro ⟨_, member, _, found, rfl, rfl⟩
        exact ⟨member, found⟩
      · rintro ⟨member, found⟩
        exact ⟨category, member, groups, found, rfl, rfl⟩
    constructor
    · exact fun member => found.mp (OrderedMap.mem_of_mem_ofList member)
    · intro there
      have key := OrderedMap.mem_keys_ofList.mpr (Entries.mem_keys.mpr ⟨groups, found.mpr there⟩)
      obtain ⟨others, member⟩ := OrderedMap.mem_keys.mp key
      have same := (found.mp (OrderedMap.mem_of_mem_ofList member)).2
      rw [there.2, Option.some.injEq] at same
      exact same ▸ member

/-- Every group of a category is the tree of a member of its object. -/
theorem exists_member_of_groups? {category : String} {groups : OrderedMap String TokenTree}
    (found : groups? config value category = some groups) {group : String × TokenTree}
    (member : group ∈ groups.entries) :
    ∃ content, value.get? category = some (.object content) ∧ ∃ entry ∈ content,
      group = (entry.1, TokenTree.ofJson config.leafField config.marker entry.2) := by
  unfold groups? at found
  split at found
  case h_1 content there =>
    obtain rfl := Option.some.inj found
    obtain ⟨entry, inside, rfl⟩ := List.mem_map.mp (OrderedMap.mem_of_mem_ofList member)
    exact ⟨content, there, entry, inside, rfl⟩
  case h_2 => exact nomatch found

end Theme

/-! ## Documents -/

namespace TokenDocument

/-- What is wrong with the text of a document. -/
inductive Unfit (rootKey text : String) : Prop where
  /-- The text is no JSON. -/
  | text {cause : Json.ReadError} (malformed : Json.read text = .error cause)
  /-- The themes are not in an object. -/
  | themeSet {json : Json} {cause : TokenError} (read : Json.read text = .ok json)
      (misplaced : themeSet rootKey json = .error cause)
  /-- A theme is no object. -/
  | theme {json : Json} {set : List (String × Json)} {entry : String × Json}
      (read : Json.read text = .ok json) (found : themeSet rootKey json = .ok set)
      (member : entry ∈ set) (shapeless : entry.2.kind ≠ .object)

variable {rootKey text : String} {config : Config}

theorem ofJson_eq {json : Json} :
    ofJson rootKey config json = do
      let set ← themeSet rootKey json
      let themes ← set.mapM fun entry => Theme.ofJson config entry.1 entry.2
      return ⟨themes⟩ := rfl

theorem read_eq {json : Json} {set : List (String × Json)} (read : Json.read text = .ok json)
    (found : themeSet rootKey json = .ok set) :
    TokenDocument.read rootKey config text =
      ((set.mapM fun entry => Theme.ofJson config entry.1 entry.2) >>= fun themes =>
        .ok ⟨themes⟩) := by
  rw [TokenDocument.read, read]
  dsimp only
  rw [ofJson_eq, found]
  rfl

/-- A document that is taken in has a theme for every entry of its theme set. -/
theorem exists_set_of_read {document : TokenDocument}
    (taken : TokenDocument.read rootKey config text = .ok document) :
    ∃ json set, Json.read text = .ok json ∧ themeSet rootKey json = .ok set ∧
      (set.mapM fun entry => Theme.ofJson config entry.1 entry.2) = .ok document.themes := by
  unfold TokenDocument.read at taken
  split at taken
  case h_1 json read =>
    obtain ⟨set, found, taken⟩ := bind_eq_ok_iff.mp taken
    obtain ⟨themes, mapped, taken⟩ := bind_eq_ok_iff.mp taken
    cases taken
    exact ⟨json, set, read, found, mapped⟩
  case h_2 => exact nomatch taken

theorem names_eq_of_mapM {set : List (String × Json)} {themes : List Theme}
    (taken : (set.mapM fun entry => Theme.ofJson config entry.1 entry.2) = .ok themes) :
    themes.map Theme.name = set.map Prod.fst := by
  have same : List.Forall₂ (· = ·) (set.map Prod.fst) (themes.map Theme.name) :=
    List.forall₂_map_left_iff.mpr (List.forall₂_map_right_iff.mpr
      ((forall₂_of_mapM taken).imp fun _ _ taken => (Theme.ofJson_eq_ok taken).2.symm))
  rw [List.forall₂_eq_eq_eq] at same
  exact same.symm

theorem not_unfit_of_read {document : TokenDocument}
    (taken : TokenDocument.read rootKey config text = .ok document) : ¬ Unfit rootKey text := by
  obtain ⟨json, set, read, found, each⟩ := exists_set_of_read taken
  intro unfit
  cases unfit with
  | text malformed =>
      rw [read] at malformed
      exact nomatch malformed
  | themeSet again misplaced =>
      cases read.symm.trans again
      rw [found] at misplaced
      exact nomatch misplaced
  | theme again refound member shapeless =>
      cases read.symm.trans again
      cases found.symm.trans refound
      obtain ⟨theme, shaped⟩ := exists_ok_of_mapM each _ member
      exact shapeless (Theme.ofJson_eq_ok shaped).1

theorem unfit_of_read {cause : TokenError}
    (refused : TokenDocument.read rootKey config text = .error cause) : Unfit rootKey text := by
  cases read : Json.read text with
  | error cause => exact .text read
  | ok json =>
      cases found : themeSet rootKey json with
      | error cause => exact .themeSet read found
      | ok set =>
          rw [read_eq read found] at refused
          rcases bind_eq_error_iff.mp refused with mapped | ⟨_, _, taken⟩
          · obtain ⟨entry, member, failed⟩ := exists_error_of_mapM mapped
            exact .theme read found member (Theme.ofJson_eq_error_iff.mp failed).1
          · exact nomatch taken

end TokenDocument
end DesignTokens
