import DesignTokens.Json.Reader
import DesignTokens.Proofs.OrderedMaps

/-!
# Distinct keys

Every object that is read keeps the last member of each of its keys, so no value that is read
repeats a key anywhere.
-/

namespace DesignTokens
namespace Json

theorem distinctItems_iff {items : List Json} :
    DistinctItems items ↔ ∀ item ∈ items, item.Distinct := by
  induction items with
  | nil => simp [DistinctItems]
  | cons item items ih => simp [DistinctItems, ih]

theorem distinctMembers_iff {members : List (String × Json)} :
    DistinctMembers members ↔ ∀ member ∈ members, member.2.Distinct := by
  induction members with
  | nil => simp [DistinctMembers]
  | cons member members ih => simp [DistinctMembers, ih]

/-- An object in which every key counts once has distinct keys if its values have. -/
theorem distinct_dedup {members : List (String × Json)}
    (inner : ∀ member ∈ members, member.2.Distinct) :
    (Json.object (Entries.dedup members)).Distinct :=
  ⟨Entries.nodup_keys_insertAll List.nodup_nil, distinctMembers_iff.mpr fun member inside =>
    inner member ((Entries.mem_insertAll inside).resolve_left List.not_mem_nil)⟩

theorem nodup_keys_of_get? {members content : List (String × Json)} {key : String}
    (distinct : (Json.object members).Distinct)
    (found : Entries.get? key members = some (.object content)) : (Entries.keys content).Nodup := by
  obtain ⟨keys, inner⟩ := distinct
  have inside := (Entries.get?_eq_some_iff keys).mp found
  exact (distinctMembers_iff.mp inner _ inside).1

namespace Reader

/-- Whatever a step gives has a property. -/
def Gives {α : Type} (good : α → Prop) (step : Attempt (α × List Char)) : Prop :=
  ∀ result rest, step = .ok (result, rest) → good result

namespace Gives

variable {α β : Type} {good : α → Prop} {fine : β → Prop}

theorem ok {result : α} {rest : List Char} (holds : good result) :
    Gives good (.ok (result, rest)) := by
  rintro _ _ ⟨⟩
  exact holds

theorem error (cause : ReadError) : Gives good (.error cause) := nofun

theorem bind {step : Attempt (β × List Char)} {next : β × List Char → Attempt (α × List Char)}
    (first : Gives fine step)
    (second : ∀ result rest, fine result → Gives good (next (result, rest))) :
    Gives good (step >>= next) := by
  cases step with
  | error cause => exact error cause
  | ok pair => exact second pair.1 pair.2 (first pair.1 pair.2 rfl)

theorem ite {condition : Prop} [Decidable condition] {yes no : Attempt (α × List Char)}
    (left : Gives good yes) (right : Gives good no) :
    Gives good (if condition then yes else no) := by
  split
  · exact left
  · exact right

theorem map {step : Attempt (β × List Char)} {image : β × List Char → α × List Char}
    (all : ∀ result rest, good (image (result, rest)).1) : Gives good (step.map image) := by
  cases step with
  | error cause => exact error cause
  | ok pair => exact ok (all pair.1 pair.2)

end Gives

theorem gives_true {α : Type} (step : Attempt (α × List Char)) : Gives (fun _ => True) step :=
  fun _ _ _ => trivial

/-- The items that a step gives repeat no key. -/
abbrev GivesItems (step : Attempt (List Json × List Char)) : Prop :=
  Gives (fun list => ∀ item ∈ list, item.Distinct) step

/-- The values of the members that a step gives repeat no key. -/
abbrev GivesMembers (step : Attempt (List (String × Json) × List Char)) : Prop :=
  Gives (fun list => ∀ member ∈ list, member.2.Distinct) step

section Step

variable {fuel : Nat}

theorem gives_value (itemsGive : ∀ depth text, GivesItems (items fuel depth text))
    (membersGive : ∀ depth text, GivesMembers (members fuel depth text)) (depth : Nat)
    (text : List Char) : Gives Json.Distinct (value (fuel + 1) depth text) := by
  rw [value]
  split
  case h_1 => exact .error _
  case h_2 =>
    refine .ite ?string (.ite ?array (.ite ?object
      (.ite ?null (.ite ?yes (.ite ?no (.ite ?number (.error _)))))))
    case string => exact .bind (gives_true _) fun _ _ _ => .ok trivial
    case array =>
      split
      · exact .error _
      · split
        · exact .ok trivial
        · exact .bind (itemsGive _ _) fun _ _ each => .ok (distinctItems_iff.mpr each)
    case object =>
      split
      · exact .error _
      · split
        · exact .ok (distinct_dedup (List.forall_mem_nil _))
        · exact .bind (membersGive _ _) fun _ _ each => .ok (distinct_dedup each)
    all_goals exact .map fun _ _ => trivial

theorem gives_items (valueGives : ∀ depth text, Gives Json.Distinct (value fuel depth text))
    (itemsGive : ∀ depth text, GivesItems (items fuel depth text)) (depth : Nat)
    (text : List Char) : GivesItems (items (fuel + 1) depth text) := by
  rw [items]
  refine .bind (valueGives _ _) fun item rest first => ?_
  dsimp only
  split
  · exact .bind (itemsGive _ _) fun _ _ each => .ok (List.forall_mem_cons.mpr ⟨first, each⟩)
  · exact .ok (List.forall_mem_singleton.mpr first)
  · exact .error _

theorem gives_members (valueGives : ∀ depth text, Gives Json.Distinct (value fuel depth text))
    (membersGive : ∀ depth text, GivesMembers (members fuel depth text)) (depth : Nat)
    (text : List Char) : GivesMembers (members (fuel + 1) depth text) := by
  rw [members]
  split
  case h_2 => exact .error _
  case h_1 =>
    refine .bind (gives_true _) fun key rest _ => ?_
    dsimp only
    split
    case h_2 => exact .error _
    case h_1 =>
      refine .bind (valueGives _ _) fun item rest first => ?_
      dsimp only
      split
      · exact .bind (membersGive _ _) fun _ _ each => .ok (List.forall_mem_cons.mpr ⟨first, each⟩)
      · exact .ok (List.forall_mem_singleton.mpr first)
      · exact .error _

end Step

/-- No call of the reader gives a value that repeats a key. -/
theorem gives_distinct (fuel : Nat) :
    (∀ depth text, Gives Json.Distinct (value fuel depth text)) ∧
      (∀ depth text, GivesItems (items fuel depth text)) ∧
      ∀ depth text, GivesMembers (members fuel depth text) := by
  induction fuel with
  | zero => exact ⟨fun _ _ => .error _, fun _ _ => .error _, fun _ _ => .error _⟩
  | succ fuel ih =>
      obtain ⟨valueGives, itemsGive, membersGive⟩ := ih
      exact ⟨gives_value itemsGive membersGive, gives_items valueGives itemsGive,
        gives_members valueGives membersGive⟩

end Reader

/-- No value that is read repeats a key. -/
theorem distinct_read {text : String} {json : Json} (read : Json.read text = .ok json) :
    json.Distinct := by
  obtain ⟨valueGives, _⟩ := Reader.gives_distinct (2 * text.toList.length + 2)
  rw [Json.read] at read
  cases step : Reader.value (2 * text.toList.length + 2) maxDepth text.toList with
  | error cause =>
      rw [step] at read
      exact absurd read nofun
  | ok pair =>
      rw [step] at read
      simp only [bind, Except.bind] at read
      split at read
      · exact Except.ok.inj read ▸ valueGives _ _ _ _ step
      · exact absurd read nofun

end Json
end DesignTokens
