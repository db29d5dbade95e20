import DesignTokens.OrderedMap

/-!
# Laws of ordered maps

Inserting entries under new keys appends them, inserting under a key that is there commutes with
everything under other keys, and merging repeated keys beforehand changes nothing.  Merging two
maps without a common key therefore puts the entries of the second behind those of the first, and
the values of the second hide those of the first under a common key.
-/

namespace DesignTokens

namespace Entries

variable {κ α : Type}

@[simp]
theorem keys_append (front back : List (κ × α)) : keys (front ++ back) = keys front ++ keys back :=
  List.map_append

theorem mem_keys {key : κ} {entries : List (κ × α)} :
    key ∈ keys entries ↔ ∃ value, (key, value) ∈ entries := by
  simp [keys]

/-- A key that is not repeated has one value. -/
theorem value_unique {key : κ} {left right : α} {entries : List (κ × α)}
    (distinct : (keys entries).Nodup) (first : (key, left) ∈ entries)
    (second : (key, right) ∈ entries) : left = right := by
  induction entries with
  | nil => simp at first
  | cons entry entries ih =>
      have ⟨fresh, rest⟩ := List.nodup_cons.mp distinct
      rcases List.mem_cons.mp first with here | first <;>
        rcases List.mem_cons.mp second with there | second
      · exact (Prod.mk.inj (here.trans there.symm)).2
      · exact absurd (mem_keys.mpr ⟨right, here ▸ second⟩) fresh
      · exact absurd (mem_keys.mpr ⟨left, there ▸ first⟩) fresh
      · exact ih rest first second

variable [DecidableEq κ]

theorem isSome_get? {key : κ} {entries : List (κ × α)} :
    (get? key entries).isSome = true ↔ key ∈ keys entries := by
  induction entries with
  | nil => simp [get?, keys]
  | cons entry entries ih =>
      obtain ⟨head, value⟩ := entry
      by_cases same : head = key
      · simp [get?, keys, same]
      · simp only [keys] at ih
        simp [get?, keys, same, Ne.symm same, ih]

theorem mem_of_get? {key : κ} {value : α} {entries : List (κ × α)}
    (found : get? key entries = some value) : (key, value) ∈ entries := by
  induction entries with
  | nil => exact nomatch found
  | cons entry entries ih =>
      obtain ⟨head, other⟩ := entry
      rw [get?] at found
      split at found
      case isTrue same =>
        rw [← same, ← Option.some.inj found]
        exact List.mem_cons_self
      case isFalse => exact List.mem_cons_of_mem _ (ih found)

theorem get?_eq_some_iff {key : κ} {value : α} {entries : List (κ × α)}
    (distinct : (keys entries).Nodup) : get? key entries = some value ↔ (key, value) ∈ entries := by
  induction entries with
  | nil => simp [get?]
  | cons entry entries ih =>
      obtain ⟨head, other⟩ := entry
      have ⟨fresh, rest⟩ := List.nodup_cons.mp distinct
      by_cases same : head = key
      · subst same
        have later : (head, value) ∉ entries := fun member => fresh (mem_keys.mpr ⟨value, member⟩)
        simp [get?, later, eq_comm]
      · simp [get?, same, Ne.symm same, ih rest]

theorem get?_eq_none_iff {key : κ} {entries : List (κ × α)} :
    get? key entries = none ↔ key ∉ keys entries := by
  rw [← isSome_get?, Bool.not_eq_true, Option.isSome_eq_false_iff, Option.isNone_iff_eq_none]

theorem mem_keys_insert {key k : κ} {value : α} {entries : List (κ × α)} :
    k ∈ keys (insert key value entries) ↔ k = key ∨ k ∈ keys entries :=
  mem_keys_alter

theorem nodup_keys_insert {key : κ} {value : α} {entries : List (κ × α)}
    (distinct : (keys entries).Nodup) : (keys (insert key value entries)).Nodup :=
  nodup_keys_alter distinct

theorem mem_insert {key : κ} {value : α} {entry : κ × α} {entries : List (κ × α)}
    (member : entry ∈ insert key value entries) : entry = (key, value) ∨ entry ∈ entries := by
  induction entries with
  | nil => exact Or.inl (List.mem_singleton.mp member)
  | cons head entries ih =>
      rw [insert, alter] at member
      split at member
      case isTrue same =>
        rcases List.mem_cons.mp member with rfl | later
        · exact Or.inl (by rw [same])
        · exact Or.inr (List.mem_cons_of_mem head later)
      case isFalse =>
        rcases List.mem_cons.mp member with rfl | later
        · exact Or.inr List.mem_cons_self
        · exact (ih later).imp_right (List.mem_cons_of_mem head)

theorem alter_of_not_mem {key : κ} (change : Option α → α) {entries : List (κ × α)}
    (fresh : key ∉ keys entries) : alter key change entries = entries ++ [(key, change none)] := by
  induction entries with
  | nil => rfl
  | cons entry entries ih =>
      obtain ⟨head, other⟩ := entry
      have differ : head ≠ key := fun same => fresh (same ▸ List.mem_cons_self)
      have later := ih fun member => fresh (List.mem_cons_of_mem head member)
      simp [alter, differ, later]

theorem insert_of_not_mem {key : κ} (value : α) {entries : List (κ × α)}
    (fresh : key ∉ keys entries) : insert key value entries = entries ++ [(key, value)] :=
  alter_of_not_mem (fun _ => value) fresh

/-- Changing the value under a key that is there leaves every entry where it stands. -/
theorem alter_of_mem {key : κ} (change : Option α → α) {entries : List (κ × α)}
    (distinct : (keys entries).Nodup) (there : key ∈ keys entries) :
    alter key change entries = entries.map fun entry =>
      if entry.1 = key then (key, change (some entry.2)) else entry := by
  induction entries with
  | nil => simp [keys] at there
  | cons entry entries ih =>
      obtain ⟨head, value⟩ := entry
      have ⟨fresh, rest⟩ := List.nodup_cons.mp distinct
      by_cases same : head = key
      · subst same
        have others : entries.map (fun entry =>
            if entry.1 = head then (head, change (some entry.2)) else entry) = entries := by
          refine (List.map_congr_left fun entry member => if_neg fun found => ?_).trans
            (List.map_id entries)
          exact fresh (List.mem_map.mpr ⟨entry, member, found⟩)
        rw [List.map_cons, others]
        simp [alter]
      · have later : key ∈ keys entries := by
          simpa [keys, Ne.symm same] using there
        simp [alter, same, ih rest later]

theorem keys_insert {key : κ} {entries : List (κ × α)} (distinct : (keys entries).Nodup)
    (value : α) : keys (insert key value entries) =
      if key ∈ keys entries then keys entries else keys entries ++ [key] := by
  by_cases there : key ∈ keys entries
  · rw [if_pos there, insert, alter_of_mem _ distinct there, keys, List.map_map]
    refine List.map_congr_left fun entry _ => ?_
    by_cases same : entry.1 = key <;> simp [same]
  · rw [if_neg there, insert_of_not_mem value there, keys_append]
    rfl

theorem insert_insert (key : κ) (value other : α) (entries : List (κ × α)) :
    insert key value (insert key other entries) = insert key value entries := by
  induction entries with
  | nil => simp [insert, alter]
  | cons entry entries ih =>
      obtain ⟨head, old⟩ := entry
      by_cases same : head = key
      · simp [insert, alter, same]
      · simp only [insert] at ih
        simp [insert, alter, same, ih]

/-- The place of a key that is there does not depend on what is inserted under other keys. -/
theorem insert_comm {key head : κ} (value other : α) {entries : List (κ × α)}
    (there : key ∈ keys entries) (differ : head ≠ key) :
    insert key value (insert head other entries) =
      insert head other (insert key value entries) := by
  induction entries with
  | nil => simp [keys] at there
  | cons entry entries ih =>
      obtain ⟨front, old⟩ := entry
      by_cases here : front = key
      · subst here
        simp [insert, alter, Ne.symm differ]
      · have later : key ∈ keys entries := by
          simpa [keys, Ne.symm here] using there
        by_cases same : front = head
        · subst same
          simp [insert, alter, differ]
        · have step := ih later
          simp only [insert] at step
          simp [insert, alter, here, same, step]

@[simp]
theorem insertAll_nil (entries : List (κ × α)) : insertAll entries [] = entries := rfl

@[simp]
theorem insertAll_cons (entries : List (κ × α)) (entry : κ × α) (additions : List (κ × α)) :
    insertAll entries (entry :: additions) =
      insertAll (insert entry.1 entry.2 entries) additions := rfl

theorem insertAll_append (entries front back : List (κ × α)) :
    insertAll entries (front ++ back) = insertAll (insertAll entries front) back :=
  List.foldl_append

theorem mem_keys_insertAll {key : κ} {entries additions : List (κ × α)} :
    key ∈ keys (insertAll entries additions) ↔ key ∈ keys entries ∨ key ∈ keys additions := by
  induction additions generalizing entries with
  | nil => simp [keys]
  | cons entry additions ih =>
      rw [insertAll_cons, ih, mem_keys_insert]
      simp only [keys, List.map_cons, List.mem_cons]
      rw [or_assoc, or_left_comm]

/-- An inserted value hides the one that was there. -/
theorem get?_insertAll {key : κ} {entries additions : List (κ × α)}
    (distinct : (keys additions).Nodup) :
    get? key (insertAll entries additions) = (get? key additions).or (get? key entries) := by
  induction additions generalizing entries with
  | nil => rfl
  | cons entry additions ih =>
      obtain ⟨head, value⟩ := entry
      have ⟨fresh, rest⟩ := List.nodup_cons.mp distinct
      rw [insertAll_cons, ih rest, insert, get?_alter]
      by_cases same : head = key
      · subst same
        simp [get?, get?_eq_none_iff.mpr fresh]
      · simp [get?, same, Ne.symm same]

theorem mem_insertAll {entry : κ × α} {entries additions : List (κ × α)}
    (member : entry ∈ insertAll entries additions) : entry ∈ entries ∨ entry ∈ additions := by
  induction additions generalizing entries with
  | nil => exact Or.inl member
  | cons head additions ih =>
      rcases ih member with before | later
      · rcases mem_insert before with rfl | before
        · exact Or.inr List.mem_cons_self
        · exact Or.inl before
      · exact Or.inr (List.mem_cons_of_mem head later)

/-- New keys are appended in their order. -/
theorem insertAll_of_nodup {entries additions : List (κ × α)}
    (distinct : (keys (entries ++ additions)).Nodup) :
    insertAll entries additions = entries ++ additions := by
  induction additions generalizing entries with
  | nil => simp
  | cons entry additions ih =>
      have shift : entries ++ entry :: additions = entries ++ [entry] ++ additions := by simp
      rw [shift] at distinct ⊢
      have fresh : entry.1 ∉ keys entries := by
        have front := distinct
        rw [keys_append, keys_append, List.nodup_append, List.nodup_append] at front
        intro member
        exact front.1.2.2 entry.1 member entry.1 (by simp [keys]) rfl
      rw [insertAll_cons, insert_of_not_mem entry.2 fresh]
      exact ih distinct

theorem insert_insertAll {key : κ} (value : α) {entries additions : List (κ × α)}
    (there : key ∈ keys entries) (other : key ∉ keys additions) :
    insert key value (insertAll entries additions) =
      insertAll (insert key value entries) additions := by
  induction additions generalizing entries with
  | nil => rfl
  | cons entry additions ih =>
      have differ : entry.1 ≠ key := fun same => other (same ▸ List.mem_cons_self)
      have later : key ∉ keys additions := fun member => other (List.mem_cons_of_mem _ member)
      rw [insertAll_cons, insertAll_cons, ih (mem_keys_insert.mpr (Or.inr there)) later,
        insert_comm value entry.2 there differ]

theorem insertAll_insert (key : κ) (value : α) (entries : List (κ × α))
    {additions : List (κ × α)} (distinct : (keys additions).Nodup) :
    insertAll entries (insert key value additions) =
      insert key value (insertAll entries additions) := by
  induction additions generalizing entries with
  | nil => rfl
  | cons entry additions ih =>
      obtain ⟨head, other⟩ := entry
      have ⟨fresh, rest⟩ := List.nodup_cons.mp distinct
      by_cases same : head = key
      · subst same
        have there : head ∈ keys (insert head other entries) :=
          mem_keys_insert.mpr (Or.inl rfl)
        have replaced : insert head value ((head, other) :: additions) =
            (head, value) :: additions := by simp [insert, alter]
        rw [replaced, insertAll_cons, insertAll_cons, insert_insertAll value there fresh,
          insert_insert]
      · have passed : insert key value ((head, other) :: additions) =
            (head, other) :: insert key value additions := by simp [insert, alter, same]
        rw [passed, insertAll_cons, insertAll_cons, ih _ rest]

/-- Merging repeated keys before an insertion changes nothing. -/
theorem insertAll_dedup (entries additions : List (κ × α)) :
    insertAll entries (dedup additions) = insertAll entries additions := by
  have run : ∀ done rest, (keys done).Nodup →
      insertAll entries (insertAll done rest) = insertAll (insertAll entries done) rest := by
    intro done rest
    induction rest generalizing done with
    | nil => exact fun _ => rfl
    | cons entry rest ih =>
        intro distinct
        rw [insertAll_cons, ih _ (nodup_keys_insert distinct), insertAll_insert _ _ _ distinct,
          insertAll_cons]
  exact run [] additions List.nodup_nil

theorem insert_map {β : Type} (image : α → β) (key : κ) (value : α) (entries : List (κ × α)) :
    insert key (image value) (entries.map fun entry => (entry.1, image entry.2)) =
      (insert key value entries).map fun entry => (entry.1, image entry.2) := by
  induction entries with
  | nil => rfl
  | cons entry entries ih =>
      rw [insert] at ih
      by_cases same : entry.1 = key <;> simp [insert, alter, same, ih]

theorem insertAll_map {β : Type} (image : α → β) (entries additions : List (κ × α)) :
    insertAll (entries.map fun entry => (entry.1, image entry.2))
        (additions.map fun entry => (entry.1, image entry.2)) =
      (insertAll entries additions).map fun entry => (entry.1, image entry.2) := by
  induction additions generalizing entries with
  | nil => rfl
  | cons entry additions ih => simp only [List.map_cons, insertAll_cons, insert_map, ih]

/-- The values can be changed before or after repeated keys are merged. -/
theorem dedup_map {β : Type} (image : α → β) (entries : List (κ × α)) :
    dedup (entries.map fun entry => (entry.1, image entry.2)) =
      (dedup entries).map fun entry => (entry.1, image entry.2) :=
  insertAll_map image [] entries

theorem dedup_of_nodup {entries : List (κ × α)} (distinct : (keys entries).Nodup) :
    dedup entries = entries :=
  insertAll_of_nodup (by simpa using distinct)

end Entries

namespace OrderedMap

variable {κ α β : Type}

theorem ext_entries {left right : OrderedMap κ α} (same : left.entries = right.entries) :
    left = right := by
  cases left
  cases right
  cases same
  rfl

theorem mem_keys {map : OrderedMap κ α} {key : κ} :
    key ∈ map.keys ↔ ∃ value, (key, value) ∈ map.entries :=
  Entries.mem_keys

theorem mem_mapValues {change : α → β} {map : OrderedMap κ α} {key : κ} {value : β} :
    (key, value) ∈ (map.mapValues change).entries ↔
      ∃ old, (key, old) ∈ map.entries ∧ change old = value := by
  simp only [mapValues, List.mem_map, Prod.mk.injEq]
  constructor
  · rintro ⟨⟨_, old⟩, member, rfl, image⟩
    exact ⟨old, member, image⟩
  · rintro ⟨old, member, image⟩
    exact ⟨(key, old), member, rfl, image⟩

theorem mem_filterMapValues {change : α → Option β} {map : OrderedMap κ α} {key : κ} {value : β} :
    (key, value) ∈ (map.filterMapValues change).entries ↔
      ∃ old, (key, old) ∈ map.entries ∧ change old = some value := by
  simp only [filterMapValues, List.mem_filterMap, Option.map_eq_some_iff, Prod.mk.injEq]
  constructor
  · rintro ⟨⟨_, old⟩, member, _, image, rfl, rfl⟩
    exact ⟨old, member, image⟩
  · rintro ⟨old, member, image⟩
    exact ⟨(key, old), member, value, image, rfl, rfl⟩

theorem mem_keys_of_mem_filterMapValues {change : α → Option β} {map : OrderedMap κ α} {key : κ}
    (member : key ∈ (map.filterMapValues change).keys) : key ∈ map.keys := by
  obtain ⟨value, entry⟩ := mem_keys.mp member
  obtain ⟨old, there, _⟩ := mem_filterMapValues.mp entry
  exact mem_keys.mpr ⟨old, there⟩

theorem length_keys (map : OrderedMap κ α) : map.keys.length = map.size := List.length_map _

variable [DecidableEq κ]

theorem contains_iff {map : OrderedMap κ α} {key : κ} :
    map.contains key = true ↔ key ∈ map.keys :=
  Entries.isSome_get?

theorem get?_eq_some_iff {map : OrderedMap κ α} {key : κ} {value : α} :
    map.get? key = some value ↔ (key, value) ∈ map.entries :=
  Entries.get?_eq_some_iff map.distinct

/-- The order of the keys and their values determine a map. -/
theorem ext_get? {left right : OrderedMap κ α} (keys : left.keys = right.keys)
    (values : ∀ key, left.get? key = right.get? key) : left = right := by
  have listed : ∀ map : OrderedMap κ α, map.entries.map (fun entry => (entry.1, some entry.2)) =
      map.keys.map fun key => (key, map.get? key) := by
    intro map
    rw [OrderedMap.keys, Entries.keys, List.map_map]
    refine List.map_congr_left fun entry member => ?_
    exact Prod.ext rfl (get?_eq_some_iff.mpr member).symm
  have injective : ∀ first second : κ × α,
      (first.1, some first.2) = (second.1, some second.2) → first = second := by
    rintro ⟨key, value⟩ ⟨_, _⟩ same
    cases same
    rfl
  refine ext_entries ((List.map_inj_right injective).mp ?_)
  rw [listed, listed, keys, funext values]

theorem get?_merge (map additions : OrderedMap κ α) (key : κ) :
    (map.merge additions).get? key = (additions.get? key).or (map.get? key) :=
  Entries.get?_insertAll additions.distinct

theorem get?_mapValues (change : α → β) (map : OrderedMap κ α) (key : κ) :
    (map.mapValues change).get? key = (map.get? key).map change := by
  ext value
  simp only [get?_eq_some_iff, mem_mapValues, Option.map_eq_some_iff]

theorem get?_filterMapValues (change : α → Option β) (map : OrderedMap κ α) (key : κ) :
    (map.filterMapValues change).get? key = (map.get? key).bind change := by
  ext value
  simp only [get?_eq_some_iff, mem_filterMapValues, Option.bind_eq_some_iff]

theorem keys_insert (map : OrderedMap κ α) (key : κ) (value : α) :
    (map.insert key value).keys = if key ∈ map.keys then map.keys else map.keys ++ [key] :=
  Entries.keys_insert map.distinct value

theorem mem_keys_insertAll {map : OrderedMap κ α} {additions : List (κ × α)} {key : κ} :
    key ∈ (map.insertAll additions).keys ↔ key ∈ map.keys ∨ key ∈ Entries.keys additions :=
  Entries.mem_keys_insertAll

theorem mem_keys_ofList {entries : List (κ × α)} {key : κ} :
    key ∈ (ofList entries).keys ↔ key ∈ Entries.keys entries := by
  rw [ofList, mem_keys_insertAll]
  simp [empty, keys, Entries.keys]

theorem mem_of_mem_ofList {entries : List (κ × α)} {entry : κ × α}
    (member : entry ∈ (ofList entries).entries) : entry ∈ entries :=
  (Entries.mem_insertAll member).resolve_left List.not_mem_nil

theorem mem_keys_merge {map additions : OrderedMap κ α} {key : κ} :
    key ∈ (map.merge additions).keys ↔ key ∈ map.keys ∨ key ∈ additions.keys :=
  mem_keys_insertAll

/-- Inserting a list is merging the map of the list. -/
theorem merge_ofList (map : OrderedMap κ α) (additions : List (κ × α)) :
    map.merge (ofList additions) = map.insertAll additions :=
  ext_entries (Entries.insertAll_dedup map.entries additions)

theorem insertAll_insertAll (map : OrderedMap κ α) (front back : List (κ × α)) :
    (map.insertAll front).insertAll back = map.insertAll (front ++ back) :=
  ext_entries (Entries.insertAll_append map.entries front back).symm

/-- Merging maps without a common key appends the entries. -/
theorem entries_merge_of_disjoint {map additions : OrderedMap κ α}
    (disjoint : ∀ key ∈ map.keys, key ∉ additions.keys) :
    (map.merge additions).entries = map.entries ++ additions.entries := by
  apply Entries.insertAll_of_nodup
  rw [Entries.keys_append]
  refine List.nodup_append.mpr ⟨map.distinct, additions.distinct, ?_⟩
  intro key member other there same
  exact disjoint key member (same ▸ there)

/-- Merging maps one after the other appends their entries, as long as no two have a common key. -/
theorem entries_foldl_merge {ι : Type} {image : ι → OrderedMap κ α} {items : List ι}
    {map : OrderedMap κ α} (fresh : ∀ item ∈ items, ∀ key ∈ map.keys, key ∉ (image item).keys)
    (apart : items.Pairwise fun left right => ∀ key ∈ (image left).keys, key ∉ (image right).keys) :
    (items.foldl (fun map item => map.merge (image item)) map).entries =
      map.entries ++ items.flatMap fun item => (image item).entries := by
  induction items generalizing map with
  | nil => simp
  | cons item items ih =>
      obtain ⟨here, later⟩ := List.forall_mem_cons.mp fresh
      obtain ⟨next, apart⟩ := List.pairwise_cons.mp apart
      have both : ∀ other ∈ items, ∀ key ∈ (map.merge (image item)).keys,
          key ∉ (image other).keys := by
        intro other member key there
        rcases mem_keys_merge.mp there with before | new
        · exact later other member key before
        · exact next other member key new
      rw [List.foldl_cons, ih both apart, entries_merge_of_disjoint here, List.append_assoc,
        List.flatMap_cons]

end OrderedMap
end DesignTokens
