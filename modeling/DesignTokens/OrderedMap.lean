/-!
# Maps that remember insertion order

An ordered map lists its entries by the first appearance of their keys.  Inserting a key again
keeps its place and replaces its value.  The list-level operations live in `Entries`, because
recursive types hold plain entry lists; `OrderedMap` adds the proof that no key is repeated.
-/

namespace DesignTokens

namespace Entries

variable {κ α β : Type}

/-- The keys of an entry list, in order. -/
def keys (entries : List (κ × α)) : List κ :=
  entries.map Prod.fst

/-- The value under the first entry with the given key. -/
def get? [DecidableEq κ] (key : κ) : List (κ × α) → Option α
  | [] => none
  | (k, value) :: entries => if k = key then some value else get? key entries

/-- Replace the value under `key` where it stands, or append a new entry built from nothing. -/
def alter [DecidableEq κ] (key : κ) (change : Option α → α) : List (κ × α) → List (κ × α)
  | [] => [(key, change none)]
  | (k, value) :: entries =>
      if k = key then (k, change (some value)) :: entries
      else (k, value) :: alter key change entries

/-- Give `key` the value `value`, keeping the place of a key that is already there. -/
def insert [DecidableEq κ] (key : κ) (value : α) (entries : List (κ × α)) : List (κ × α) :=
  alter key (fun _ => value) entries

/-- Insert every entry of `additions` in order. -/
def insertAll [DecidableEq κ] (entries additions : List (κ × α)) : List (κ × α) :=
  additions.foldl (fun entries entry => insert entry.1 entry.2 entries) entries

/-- Entries with repeated keys merged: first place, last value. -/
def dedup [DecidableEq κ] (entries : List (κ × α)) : List (κ × α) :=
  insertAll [] entries

theorem get?_alter [DecidableEq κ] {key k : κ} {change : Option α → α}
    {entries : List (κ × α)} :
    get? k (alter key change entries) =
      if k = key then some (change (get? key entries)) else get? k entries := by
  induction entries with
  | nil =>
      by_cases same : k = key
      · simp [alter, get?, same]
      · simp [alter, get?, same, Ne.symm same]
  | cons entry entries ih =>
      obtain ⟨head, value⟩ := entry
      by_cases here : head = key
      · subst here
        by_cases same : k = head
        · simp [alter, get?, same]
        · simp [alter, get?, same, Ne.symm same]
      · by_cases there : head = k
        · subst there
          simp [alter, get?, here]
        · simp [alter, get?, here, there, ih]

theorem mem_keys_alter [DecidableEq κ] {key k : κ} {change : Option α → α}
    {entries : List (κ × α)} :
    k ∈ keys (alter key change entries) ↔ k = key ∨ k ∈ keys entries := by
  induction entries with
  | nil => simp [alter, keys]
  | cons entry entries ih =>
      obtain ⟨head, value⟩ := entry
      by_cases same : head = key
      · subst same
        simp [alter, keys]
      · simp only [keys] at ih
        simp [alter, keys, same, ih, or_left_comm]

theorem nodup_keys_alter [DecidableEq κ] {key : κ} {change : Option α → α}
    {entries : List (κ × α)} (distinct : (keys entries).Nodup) :
    (keys (alter key change entries)).Nodup := by
  induction entries with
  | nil => simp [alter, keys]
  | cons entry entries ih =>
      obtain ⟨head, value⟩ := entry
      have ⟨fresh, rest⟩ := List.nodup_cons.mp distinct
      by_cases same : head = key
      · simpa [alter, keys, same] using distinct
      · have absent : head ∉ keys (alter key change entries) := by
          rw [mem_keys_alter]
          exact fun found => found.elim same fresh
        simpa [alter, keys, same] using List.nodup_cons.mpr ⟨absent, ih rest⟩

theorem nodup_keys_insertAll [DecidableEq κ] {entries additions : List (κ × α)}
    (distinct : (keys entries).Nodup) : (keys (insertAll entries additions)).Nodup := by
  induction additions generalizing entries with
  | nil => exact distinct
  | cons entry additions ih => exact ih (nodup_keys_alter distinct)

end Entries

/-- A finite map whose entries are listed in insertion order. -/
structure OrderedMap (κ α : Type) where
  /-- The entries by first insertion of their keys. -/
  entries : List (κ × α)
  /-- No key is repeated. -/
  distinct : (Entries.keys entries).Nodup
  deriving DecidableEq

namespace OrderedMap

variable {κ α β : Type}

/-- The map without entries. -/
def empty : OrderedMap κ α := ⟨[], List.nodup_nil⟩

instance : EmptyCollection (OrderedMap κ α) := ⟨empty⟩

instance : Inhabited (OrderedMap κ α) := ⟨empty⟩

/-- The keys in insertion order. -/
def keys (map : OrderedMap κ α) : List κ := Entries.keys map.entries

/-- The number of entries. -/
def size (map : OrderedMap κ α) : Nat := map.entries.length

/-- The value under a key. -/
def get? [DecidableEq κ] (map : OrderedMap κ α) (key : κ) : Option α :=
  Entries.get? key map.entries

/-- Whether a key has a value. -/
def contains [DecidableEq κ] (map : OrderedMap κ α) (key : κ) : Bool :=
  (map.get? key).isSome

/-- Change the value under `key` where it stands, or append a new entry built from nothing. -/
def alter [DecidableEq κ] (map : OrderedMap κ α) (key : κ) (change : Option α → α) :
    OrderedMap κ α :=
  ⟨Entries.alter key change map.entries, Entries.nodup_keys_alter map.distinct⟩

/-- Give `key` the value `value`, keeping the place of a key that is already there. -/
def insert [DecidableEq κ] (map : OrderedMap κ α) (key : κ) (value : α) : OrderedMap κ α :=
  map.alter key fun _ => value

/-- Insert the entries of a list in order. -/
def insertAll [DecidableEq κ] (map : OrderedMap κ α) (additions : List (κ × α)) :
    OrderedMap κ α :=
  ⟨Entries.insertAll map.entries additions, Entries.nodup_keys_insertAll map.distinct⟩

/-- The map that results from inserting the entries of a list in order. -/
def ofList [DecidableEq κ] (entries : List (κ × α)) : OrderedMap κ α :=
  empty.insertAll entries

/-- Insert all entries of a second map, which wins where both have a key. -/
def merge [DecidableEq κ] (map additions : OrderedMap κ α) : OrderedMap κ α :=
  map.insertAll additions.entries

/-- Apply a function to every value. -/
def mapValues (change : α → β) (map : OrderedMap κ α) : OrderedMap κ β where
  entries := map.entries.map fun entry => (entry.1, change entry.2)
  distinct := by
    have same : (map.entries.map fun entry => (entry.1, change entry.2)).map Prod.fst =
        map.entries.map Prod.fst := by
      simp [Function.comp_def]
    simpa [Entries.keys, same] using map.distinct

/-- Keep the entries whose value has an image. -/
def filterMapValues (change : α → Option β) (map : OrderedMap κ α) : OrderedMap κ β where
  entries := map.entries.filterMap fun entry => (change entry.2).map fun value => (entry.1, value)
  distinct := by
    have kept : ∀ entries : List (κ × α),
        ((entries.filterMap fun entry =>
          (change entry.2).map fun value => (entry.1, value)).map Prod.fst).Sublist
            (entries.map Prod.fst) := by
      intro entries
      induction entries with
      | nil => simp
      | cons entry entries ih =>
          cases image : change entry.2 with
          | none => simpa [image] using ih.cons entry.1
          | some value => simpa [image] using ih.cons_cons entry.1
    exact (kept map.entries).nodup map.distinct

theorem get?_insert [DecidableEq κ] (map : OrderedMap κ α) (key k : κ) (value : α) :
    (map.insert key value).get? k = if k = key then some value else map.get? k :=
  Entries.get?_alter

@[simp]
theorem keys_mapValues (change : α → β) (map : OrderedMap κ α) :
    (map.mapValues change).keys = map.keys := by
  simp [keys, mapValues, Entries.keys, Function.comp_def]

@[simp]
theorem size_mapValues (change : α → β) (map : OrderedMap κ α) :
    (map.mapValues change).size = map.size := by
  simp [size, mapValues]

end OrderedMap
end DesignTokens
