import DesignTokens.Proofs.LeafLookup
import DesignTokens.Proofs.OneLine

/-!
# Documents without line breaks

The texts of a document are the keys of its objects and its strings.  The keys on the way to a token
are keys of objects or positions in arrays, and a token is taken in from one value.  So if no text
of a document has a line break, then no key and no token of its trees has one.
-/

namespace DesignTokens

namespace Json

mutual

/-- The keys and the strings in a value, in order. -/
def texts : Json → List String
  | .string value => [value]
  | .array items => itemTexts items
  | .object members => memberTexts members
  | _ => []

/-- The keys and the strings in the items of an array. -/
def itemTexts : List Json → List String
  | [] => []
  | item :: items => texts item ++ itemTexts items

/-- The keys and the strings in the members of an object. -/
def memberTexts : List (String × Json) → List String
  | [] => []
  | (key, value) :: members => key :: (texts value ++ memberTexts members)

end

/-- No text of a value has a line break. -/
def OneLine (json : Json) : Prop := ∀ text ∈ json.texts, Text.OneLine text

theorem oneLine_items_cons {item : Json} {items : List Json} :
    (Json.array (item :: items)).OneLine ↔ item.OneLine ∧ (Json.array items).OneLine := by
  simp only [OneLine, texts, itemTexts, List.forall_mem_append]

theorem oneLine_members_cons {key : String} {value : Json} {members : List (String × Json)} :
    (Json.object ((key, value) :: members)).OneLine ↔
      Text.OneLine key ∧ value.OneLine ∧ (Json.object members).OneLine := by
  simp only [OneLine, texts, memberTexts, List.forall_mem_cons, List.forall_mem_append]

theorem OneLine.member {members : List (String × Json)} {entry : String × Json}
    (whole : (Json.object members).OneLine) (inside : entry ∈ members) :
    Text.OneLine entry.1 ∧ entry.2.OneLine := by
  induction members with
  | nil => exact absurd inside List.not_mem_nil
  | cons first members ih =>
      obtain ⟨key, value, others⟩ := oneLine_members_cons.mp whole
      rcases List.mem_cons.mp inside with rfl | later
      · exact ⟨key, value⟩
      · exact ih others later

theorem OneLine.get? {json value : Json} {key : String} (whole : json.OneLine)
    (found : json.get? key = some value) : value.OneLine := by
  cases json with
  | object members => exact (whole.member (Entries.mem_of_get? found)).2
  | _ => exact nomatch found

end Json

theorem TokenValue.oneLine_ofJson {json : Json} (marker : String) (whole : json.OneLine) :
    (ofJson marker json).OneLine := by
  cases json with
  | string raw => exact oneLine_ofJson_string marker (whole raw List.mem_cons_self)
  | _ => trivial

namespace TokenTree

/-- No key and no token of a tree has a line break. -/
def OneLine (tree : TokenTree) : Prop :=
  ∀ leaf ∈ tree.leaves, (∀ key ∈ leaf.1, Text.OneLine key) ∧ leaf.2.OneLine

theorem oneLine_ofChildren {children : List (String × TokenTree)}
    (each : ∀ child ∈ children, Text.OneLine child.1 ∧ child.2.OneLine) :
    (ofChildren children).OneLine := by
  intro leaf member
  rw [ofChildren, leaves, leavesChildren_eq] at member
  obtain ⟨child, inside, member⟩ := List.mem_flatMap.mp member
  obtain ⟨below, there, rfl⟩ := List.mem_map.mp member
  have listed := (Entries.mem_insertAll inside).resolve_left List.not_mem_nil
  obtain ⟨key, tree⟩ := each child listed
  obtain ⟨keys, value⟩ := tree below there
  exact ⟨List.forall_mem_cons.mpr ⟨key, keys⟩, value⟩

variable (leafField marker : String)

mutual

theorem oneLine_ofJson (json : Json) (whole : json.OneLine) :
    (ofJson leafField marker json).OneLine := by
  match json with
  | .object members =>
      rw [ofJson]
      split
      case h_1 value found =>
        intro leaf member
        rw [List.mem_singleton.mp member]
        exact ⟨List.forall_mem_nil _, TokenValue.oneLine_ofJson marker (whole.get? found)⟩
      case h_2 => exact oneLine_ofChildren (oneLine_ofMembers members whole)
  | .array items => exact oneLine_ofChildren (oneLine_ofItems 0 items whole)
  | .string _ | .number _ | .bool _ | .null =>
      exact fun leaf member => absurd member List.not_mem_nil

theorem oneLine_ofMembers (members : List (String × Json))
    (whole : (Json.object members).OneLine) :
    ∀ child ∈ ofMembers leafField marker members,
      Text.OneLine child.1 ∧ child.2.OneLine := by
  match members with
  | [] => exact List.forall_mem_nil _
  | (key, value) :: members =>
      obtain ⟨name, content, others⟩ := Json.oneLine_members_cons.mp whole
      have later := oneLine_ofMembers members others
      rw [ofMembers]
      split
      · exact List.forall_mem_cons.mpr ⟨⟨name, oneLine_ofJson value content⟩, later⟩
      · exact later

theorem oneLine_ofItems (position : Nat) (items : List Json)
    (whole : (Json.array items).OneLine) :
    ∀ child ∈ ofItems leafField marker position items,
      Text.OneLine child.1 ∧ child.2.OneLine := by
  match items with
  | [] => exact List.forall_mem_nil _
  | item :: items =>
      obtain ⟨content, others⟩ := Json.oneLine_items_cons.mp whole
      have later := oneLine_ofItems (position + 1) items others
      rw [ofItems]
      split
      · exact List.forall_mem_cons.mpr
          ⟨⟨Text.oneLine_nat position, oneLine_ofJson item content⟩, later⟩
      · exact later

end

end TokenTree

namespace Theme

variable {config : Config} {json : Json}

theorem oneLine_part (whole : json.OneLine) (key : String) : (part config json key).OneLine := by
  unfold part
  split
  case h_1 value found =>
    exact TokenTree.oneLine_ofJson config.leafField config.marker value (whole.get? found)
  case h_2 => exact fun leaf member => absurd member List.not_mem_nil

theorem oneLine_groups (whole : json.OneLine) {category : String}
    {groups : OrderedMap String TokenTree} (found : groups? config json category = some groups) :
    ∀ group ∈ groups.entries, Text.OneLine group.1 ∧ group.2.OneLine := by
  intro group member
  obtain ⟨content, there, entry, inside, rfl⟩ := exists_member_of_groups? found member
  obtain ⟨key, value⟩ := (whole.get? there).member inside
  exact ⟨key, TokenTree.oneLine_ofJson config.leafField config.marker entry.2 value⟩

/-- The tokens of a theme have no line breaks if its document and the categories have none. -/
theorem oneLine_leaves {name : String} {theme : Theme}
    (read : ofJson config name json = .ok theme) (whole : json.OneLine)
    (categories : ∀ category ∈ config.categories, Text.OneLine category) (kind : SectionKind) :
    ∀ leaf ∈ theme.leaves kind, (∀ key ∈ leaf.1, Text.OneLine key) ∧ leaf.2.OneLine := by
  obtain ⟨palette, components⟩ := parts_of_ofJson read
  cases kind with
  | palette =>
      rw [leaves, palette]
      exact oneLine_part whole "palette"
  | component =>
      rw [leaves, components]
      exact oneLine_part whole "components"
  | common =>
      intro leaf member
      obtain ⟨⟨category, groups⟩, listed, member⟩ := List.mem_flatMap.mp member
      obtain ⟨⟨group, tree⟩, inside, member⟩ := List.mem_flatMap.mp member
      obtain ⟨below, there, rfl⟩ := List.mem_map.mp member
      obtain ⟨known, found⟩ := (mem_common_iff read).mp listed
      obtain ⟨key, content⟩ := oneLine_groups whole found _ inside
      obtain ⟨keys, value⟩ := content below there
      have path := List.forall_mem_cons.mpr ⟨key, keys⟩
      exact ⟨List.forall_mem_cons.mpr ⟨categories category known, path⟩, value⟩

end Theme
end DesignTokens
