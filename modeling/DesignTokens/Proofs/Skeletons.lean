import DesignTokens.TokenTree
import DesignTokens.Proofs.OrderedMaps

/-!
# Skeletons of JSON values

A token tree is made from the skeleton of a JSON value alone.  The skeleton has no arrays outside
leaves, since their containers stand under their positions, no scalars, and nothing beside a leaf
field.  A position that was dropped leaves a gap and moves no other one, and no position is taken
for the leaf field as long as that is no decimal numeral.
-/

namespace DesignTokens

namespace Json

mutual

/--
The skeleton of a value: an object with the leaf field keeps that field alone, other objects keep
the skeletons of their containers, arrays become objects of theirs, and scalars become empty.
-/
def skeleton (leafField : String) : Json → Json
  | .object members =>
      match Entries.get? leafField members with
      | some value => .object [(leafField, value)]
      | none => .object (skeletonMembers leafField members)
  | .array items => .object (skeletonItems leafField 0 items)
  | _ => .object []

/-- The skeletons of the containers among the members of an object. -/
def skeletonMembers (leafField : String) : List (String × Json) → List (String × Json)
  | [] => []
  | (key, value) :: members =>
      if value.isContainer then
        (key, skeleton leafField value) :: skeletonMembers leafField members
      else skeletonMembers leafField members

/-- The skeletons of the containers among the items of an array, under their positions. -/
def skeletonItems (leafField : String) (position : Nat) : List Json → List (String × Json)
  | [] => []
  | item :: items =>
      if item.isContainer then
        (toString position, skeleton leafField item) ::
          skeletonItems leafField (position + 1) items
      else skeletonItems leafField (position + 1) items

end

/-- A value of leaves and groups only, where a leaf has no member beside the leaf field. -/
inductive IsSkeleton (leafField : String) : Json → Prop where
  /-- A leaf with any value. -/
  | leaf (value : Json) : IsSkeleton leafField (.object [(leafField, value)])
  /-- A group of skeletons. -/
  | group {members : List (String × Json)} (absent : leafField ∉ Entries.keys members)
      (inner : ∀ member ∈ members, IsSkeleton leafField member.2) :
      IsSkeleton leafField (.object members)

/-- A value has what its members and items have, and scalars have it anyway. -/
@[elab_as_elim]
theorem containerInduction {motive : Json → Prop}
    (scalar : ∀ json, json.isContainer = false → motive json)
    (array : ∀ items, (∀ item ∈ items, motive item) → motive (.array items))
    (object : ∀ members, (∀ member ∈ members, motive member.2) → motive (.object members))
    (json : Json) : motive json :=
  @Json.rec motive (fun items => ∀ item ∈ items, motive item)
    (fun members => ∀ member ∈ members, motive member.2) (fun member => motive member.2)
    (scalar .null rfl) (fun value => scalar (.bool value) rfl)
    (fun value => scalar (.number value) rfl) (fun value => scalar (.string value) rfl)
    array object (List.forall_mem_nil _)
    (fun _ _ first rest => List.forall_mem_cons.mpr ⟨first, rest⟩) (List.forall_mem_nil _)
    (fun _ _ first rest => List.forall_mem_cons.mpr ⟨first, rest⟩) (fun _ _ value => value) json

/-! ## Arrays as objects -/

/-- The items of an array under their positions. -/
def numbered (position : Nat) : List Json → List (String × Json)
  | [] => []
  | item :: items => (toString position, item) :: numbered (position + 1) items

theorem exists_of_mem_numbered {position : Nat} {items : List Json} {member : String × Json}
    (inside : member ∈ numbered position items) :
    member.2 ∈ items ∧ ∃ place : Nat, member.1 = toString place := by
  induction items generalizing position with
  | nil => exact absurd inside List.not_mem_nil
  | cons item items ih =>
      rcases List.mem_cons.mp inside with rfl | later
      · exact ⟨List.mem_cons_self, position, rfl⟩
      · exact ⟨List.mem_cons_of_mem item (ih later).1, (ih later).2⟩

/-- A field that is not all digits is the text of no position. -/
theorem ne_toString_of_mem {field : String} {c : Char} (member : c ∈ field.toList)
    (letter : c.isDigit = false) (place : Nat) : field ≠ toString place := by
  rintro rfl
  rw [Nat.toString_eq_ofList_toDigits, String.toList_ofList] at member
  rw [Nat.isDigit_of_mem_toDigits (by decide) (by decide) member] at letter
  exact Bool.false_ne_true letter.symm

theorem not_mem_keys_numbered {leafField : String}
    (named : ∀ place : Nat, leafField ≠ toString place) (position : Nat) (items : List Json) :
    leafField ∉ Entries.keys (numbered position items) := by
  intro member
  obtain ⟨value, inside⟩ := Entries.mem_keys.mp member
  obtain ⟨_, place, same⟩ := exists_of_mem_numbered inside
  exact named place same

theorem skeletonItems_eq (leafField : String) (position : Nat) (items : List Json) :
    skeletonItems leafField position items =
      skeletonMembers leafField (numbered position items) := by
  induction items generalizing position with
  | nil => rfl
  | cons item items ih => rw [skeletonItems, numbered, skeletonMembers, ih]

variable {leafField : String}

theorem skeleton_scalar {json : Json} (bare : json.isContainer = false) :
    skeleton leafField json = .object [] := by
  cases json with
  | array items => exact absurd bare nofun
  | object members => exact absurd bare nofun
  | _ => rfl

theorem skeleton_leaf {members : List (String × Json)} {value : Json}
    (found : Entries.get? leafField members = some value) :
    skeleton leafField (.object members) = .object [(leafField, value)] := by
  rw [skeleton, found]

theorem skeleton_group {members : List (String × Json)}
    (absent : leafField ∉ Entries.keys members) :
    skeleton leafField (.object members) = .object (skeletonMembers leafField members) := by
  rw [skeleton, Entries.get?_eq_none_iff.mpr absent]

/-- An array has the skeleton of the object of its items under their positions. -/
theorem skeleton_array (named : ∀ place : Nat, leafField ≠ toString place) (items : List Json) :
    skeleton leafField (.array items) = skeleton leafField (.object (numbered 0 items)) := by
  rw [skeleton_group (not_mem_keys_numbered named 0 items), skeleton, skeletonItems_eq]

/-! ## What is left -/

theorem isContainer_skeleton (json : Json) : (skeleton leafField json).isContainer = true := by
  cases json with
  | object members =>
      rw [skeleton]
      split <;> rfl
  | _ => rfl

theorem keys_skeletonMembers_subset (leafField : String) (members : List (String × Json)) :
    Entries.keys (skeletonMembers leafField members) ⊆ Entries.keys members := by
  induction members with
  | nil => exact List.Subset.refl _
  | cons member members ih =>
      rw [skeletonMembers]
      split
      · exact List.cons_subset_cons _ ih
      · exact List.subset_cons_of_subset _ ih

theorem exists_of_mem_skeletonMembers {members : List (String × Json)} {member : String × Json}
    (inside : member ∈ skeletonMembers leafField members) :
    ∃ other ∈ members, member.2 = skeleton leafField other.2 := by
  induction members with
  | nil => exact absurd inside List.not_mem_nil
  | cons head members ih =>
      have later : member ∈ skeletonMembers leafField members →
          ∃ other ∈ head :: members, member.2 = skeleton leafField other.2 := fun found =>
        (ih found).imp fun _ there => ⟨List.mem_cons_of_mem head there.1, there.2⟩
      rw [skeletonMembers] at inside
      split at inside
      · rcases List.mem_cons.mp inside with rfl | found
        · exact ⟨head, List.mem_cons_self, rfl⟩
        · exact later found
      · exact later inside

theorem isSkeleton_object {members : List (String × Json)}
    (inner : ∀ member ∈ members, IsSkeleton leafField (skeleton leafField member.2)) :
    IsSkeleton leafField (skeleton leafField (.object members)) := by
  cases found : Entries.get? leafField members with
  | some value =>
      rw [skeleton_leaf found]
      exact .leaf value
  | none =>
      have absent := Entries.get?_eq_none_iff.mp found
      rw [skeleton_group absent]
      refine .group (fun member => absent (keys_skeletonMembers_subset _ _ member)) ?_
      intro member inside
      obtain ⟨other, there, same⟩ := exists_of_mem_skeletonMembers inside
      exact same ▸ inner other there

/-- Nothing is left of a value but leaves and groups. -/
theorem isSkeleton_skeleton (named : ∀ place : Nat, leafField ≠ toString place) (json : Json) :
    IsSkeleton leafField (skeleton leafField json) := by
  induction json using containerInduction with
  | scalar json bare =>
      rw [skeleton_scalar bare]
      exact .group List.not_mem_nil (List.forall_mem_nil _)
  | array items ih =>
      rw [skeleton_array named]
      exact isSkeleton_object fun member inside => ih member.2 (exists_of_mem_numbered inside).1
  | object members ih => exact isSkeleton_object ih

end Json

namespace TokenTree

open Json

variable {leafField : String}

theorem ofItems_eq (leafField marker : String) (position : Nat) (items : List Json) :
    ofItems leafField marker position items =
      ofMembers leafField marker (numbered position items) := by
  induction items generalizing position with
  | nil => rfl
  | cons item items ih => rw [ofItems, numbered, ofMembers, ih]

theorem ofJson_scalar {json : Json} (marker : String) (bare : json.isContainer = false) :
    ofJson leafField marker json = .empty := by
  cases json with
  | array items => exact absurd bare nofun
  | object members => exact absurd bare nofun
  | _ => rfl

theorem ofJson_group {members : List (String × Json)} (marker : String)
    (absent : leafField ∉ Entries.keys members) :
    ofJson leafField marker (.object members) =
      ofChildren (ofMembers leafField marker members) := by
  rw [ofJson, Entries.get?_eq_none_iff.mpr absent]

/-- An array is taken in like the object of its items under their positions. -/
theorem ofJson_array (named : ∀ place : Nat, leafField ≠ toString place) (marker : String)
    (items : List Json) :
    ofJson leafField marker (.array items) =
      ofJson leafField marker (.object (numbered 0 items)) := by
  rw [ofJson_group marker (not_mem_keys_numbered named 0 items), ofJson, ofItems_eq]

/-- An array has no leaf field, but an object can have one that looks like a position. -/
example : (ofJson "0" "m" (.array [.object []])).leafCount = 0 ∧
    (ofJson "0" "m" (.object [("0", .object [])])).leafCount = 1 := by decide

theorem ofMembers_skeletonMembers {marker : String} {members : List (String × Json)}
    (inner : ∀ member ∈ members, ofJson leafField marker (skeleton leafField member.2) =
      ofJson leafField marker member.2) :
    ofMembers leafField marker (skeletonMembers leafField members) =
      ofMembers leafField marker members := by
  induction members with
  | nil => rfl
  | cons member members ih =>
      obtain ⟨first, rest⟩ := List.forall_mem_cons.mp inner
      rw [skeletonMembers, ofMembers]
      split
      · rw [ofMembers, if_pos (isContainer_skeleton member.2), first, ih rest]
      · exact ih rest

theorem ofJson_skeleton_object {marker : String} {members : List (String × Json)}
    (inner : ∀ member ∈ members, ofJson leafField marker (skeleton leafField member.2) =
      ofJson leafField marker member.2) :
    ofJson leafField marker (skeleton leafField (.object members)) =
      ofJson leafField marker (.object members) := by
  cases found : Entries.get? leafField members with
  | some value =>
      rw [skeleton_leaf found, ofJson, ofJson, found]
      simp [Entries.get?]
  | none =>
      have absent := Entries.get?_eq_none_iff.mp found
      have left : leafField ∉ Entries.keys (skeletonMembers leafField members) :=
        fun member => absent (keys_skeletonMembers_subset _ _ member)
      rw [skeleton_group absent, ofJson_group marker left, ofJson_group marker absent,
        ofMembers_skeletonMembers inner]

theorem ofJson_skeleton (named : ∀ place : Nat, leafField ≠ toString place) (marker : String)
    (json : Json) :
    ofJson leafField marker (skeleton leafField json) = ofJson leafField marker json := by
  induction json using containerInduction with
  | scalar json bare =>
      rw [skeleton_scalar bare, ofJson_scalar marker bare]
      rfl
  | array items ih =>
      rw [skeleton_array named, ofJson_array named]
      exact ofJson_skeleton_object fun member inside =>
        ih member.2 (exists_of_mem_numbered inside).1
  | object members ih => exact ofJson_skeleton_object ih

/--
The skeleton of a value is leaves and groups only, and makes the same tree as the value, the order
of the children included, and hence the same flat map under every name.
-/
theorem only_skeletons_count (named : ∀ place : Nat, leafField ≠ toString place)
    (marker : String) (json : Json) :
    IsSkeleton leafField (skeleton leafField json) ∧
      ofJson leafField marker (skeleton leafField json) = ofJson leafField marker json ∧
      ∀ separator name, (ofJson leafField marker (skeleton leafField json)).flatten separator name =
        (ofJson leafField marker json).flatten separator name := by
  have same := ofJson_skeleton named marker json
  exact ⟨isSkeleton_skeleton named json, same, fun separator name => by rw [same]⟩

/-- A dropped item leaves a gap, and a leaf keeps its value whole and nothing beside it. -/
theorem only_skeletons_grid :
    let grid : Json := .object [("unit", .string "px"), ("grid", .array [.null,
      .object [("value", .array [.null]), ("inner", .object [("value", .bool true)])],
      .array [.object [("value", .string "wide")]]])]
    let bare : Json := .object [("grid", .object [("1", .object [("value", .array [.null])]),
      ("2", .object [("0", .object [("value", .string "wide")])])])]
    (∀ place : Nat, "value" ≠ toString place) ∧ skeleton "value" grid = bare ∧
      IsSkeleton "value" bare ∧ ofJson "value" "m" bare = ofJson "value" "m" grid ∧
      (ofJson "value" "m" bare).flatten "-" "top" = (ofJson "value" "m" grid).flatten "-" "top" ∧
      Entries.keys ((ofJson "value" "m" bare).flatten "-" "top").entries =
        ["top-grid-1", "top-grid-2-0"] := by
  intro grid bare
  have named : ∀ place : Nat, "value" ≠ toString place :=
    ne_toString_of_mem (c := 'v') (by decide) (by decide)
  have cleaned : skeleton "value" grid = bare := rfl
  obtain ⟨shape, same, flat⟩ := only_skeletons_count named "m" grid
  rw [cleaned] at shape same flat
  exact ⟨named, cleaned, shape, same, flat "-" "top", by decide⟩

end TokenTree
end DesignTokens
