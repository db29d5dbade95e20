import DesignTokens.Proofs.Flattening
import Mathlib.Data.List.Induction
import Mathlib.Data.List.Perm.Subperm

/-!
# Flattening keeps the last leaves

Leaves of any tree may compose to one name.  The name then stands where its first leaf stands and
has the value of its last one, and this determines the whole flat map.  Below an empty name the
leading empty keys of a path leave no trace, since no separator follows a name that is still empty.
-/

namespace DesignTokens

namespace OrderedMap

variable {κ α : Type} [DecidableEq κ]

/-- One name has its first place in front of that of another. -/
def FirstBefore (names : List κ) (left right : κ) : Prop := names.idxOf left < names.idxOf right

/-- A map holds of every key in a list of entries the first place and the last value. -/
structure LastWins (entries : List (κ × α)) (map : OrderedMap κ α) : Prop where
  /-- The map has the keys of the entries. -/
  keyed : ∀ key, key ∈ map.keys ↔ key ∈ Entries.keys entries
  /-- They stand in the order of their first entries. -/
  ordered : map.keys.Pairwise (FirstBefore (Entries.keys entries))
  /-- They have the values of their last entries. -/
  last : ∀ key, map.get? key = (entries.filter fun entry => entry.1 = key).getLast?.map Prod.snd

section FirstBefore

variable {names keys : List κ} {key other : κ}

theorem FirstBefore.asymm (before : FirstBefore names key other) :
    ¬ FirstBefore names other key := Nat.lt_asymm before

/-- Names in the order of their first places stay so when the list goes on. -/
theorem pairwise_firstBefore_concat (known : ∀ key ∈ keys, key ∈ names)
    (ordered : keys.Pairwise (FirstBefore names)) (next : κ) :
    keys.Pairwise (FirstBefore (names ++ [next])) := by
  refine ordered.imp_of_mem fun first second before => ?_
  rw [FirstBefore, List.idxOf_append_of_mem (known _ first),
    List.idxOf_append_of_mem (known _ second)]
  exact before

/-- A new name has its first place behind all others. -/
theorem firstBefore_concat (known : other ∈ names) (fresh : key ∉ names) :
    FirstBefore (names ++ [key]) other key := by
  have earlier := List.idxOf_lt_length_of_mem known
  rw [FirstBefore, List.idxOf_append_of_mem known, List.idxOf_append_of_notMem fresh]
  omega

end FirstBefore

variable {entries : List (κ × α)} {map other : OrderedMap κ α}

/-- One more entry replaces the value of its key, or it is the first one with its key. -/
theorem LastWins.insert (wins : LastWins entries map) (key : κ) (value : α) :
    LastWins (entries ++ [(key, value)]) (map.insert key value) := by
  have names : Entries.keys (entries ++ [(key, value)]) = Entries.keys entries ++ [key] :=
    Entries.keys_append entries [(key, value)]
  have kept : map.keys.Pairwise (FirstBefore (Entries.keys entries ++ [key])) :=
    pairwise_firstBefore_concat (fun key => (wins.keyed key).mp) wins.ordered key
  refine ⟨fun other => ?_, ?_, fun other => ?_⟩
  · rw [names, List.mem_append, List.mem_singleton, ← wins.keyed, or_comm]
    exact Entries.mem_keys_insert
  · rw [names, keys_insert]
    split
    case isTrue => exact kept
    case isFalse absent =>
      refine List.pairwise_append.mpr ⟨kept, List.pairwise_singleton _ _, ?_⟩
      intro other member last same
      rw [List.mem_singleton.mp same]
      exact firstBefore_concat ((wins.keyed other).mp member) ((wins.keyed key).not.mp absent)
  · rw [get?_insert, wins.last other, List.filter_append]
    by_cases same : key = other
    · simp [same]
    · simp [same, Ne.symm same]

/-- Inserting entries in order keeps the first places and the last values. -/
theorem lastWins_ofList (entries : List (κ × α)) : LastWins entries (ofList entries) := by
  induction entries using List.reverseRecOn with
  | nil => exact ⟨fun _ => Iff.rfl, List.Pairwise.nil, fun _ => rfl⟩
  | append_singleton entries entry ih =>
      have step : ofList (entries ++ [entry]) = (ofList entries).insert entry.1 entry.2 :=
        (insertAll_insertAll empty entries [entry]).symm
      rw [step]
      exact ih.insert entry.1 entry.2

/-- Order, keys and values leave no choice. -/
theorem LastWins.unique (wins : LastWins entries map) (also : LastWins entries other) :
    map = other := by
  have members : ∀ key, key ∈ map.keys ↔ key ∈ other.keys :=
    fun key => (wins.keyed key).trans (also.keyed key).symm
  have perm : map.keys.Perm other.keys :=
    (List.perm_ext_iff_of_nodup map.distinct other.distinct).mpr members
  refine ext_get? (perm.eq_of_pairwise ?_ wins.ordered also.ordered) fun key => ?_
  · exact fun _ _ _ _ before after => absurd after before.asymm
  · rw [wins.last, also.last]

theorem lastWins_iff : LastWins entries map ↔ map = ofList entries :=
  ⟨fun wins => wins.unique (lastWins_ofList entries), fun same => same ▸ lastWins_ofList entries⟩

theorem keys_ofList_subperm (entries : List (κ × α)) :
    (ofList entries).keys.Subperm (Entries.keys entries) :=
  List.subperm_of_subset (ofList entries).distinct fun _ member => mem_keys_ofList.mp member

theorem size_ofList_le (entries : List (κ × α)) : (ofList entries).size ≤ entries.length := by
  have lengths := (keys_ofList_subperm entries).length_le
  rwa [length_keys, Entries.keys, List.length_map] at lengths

/-- No entry is lost exactly if no key is repeated. -/
theorem size_ofList_eq_iff :
    (ofList entries).size = entries.length ↔ (Entries.keys entries).Nodup := by
  constructor
  · intro same
    have longer : (Entries.keys entries).length ≤ (ofList entries).keys.length := by
      rw [length_keys, same]
      exact Nat.le_of_eq (List.length_map _)
    have perm := (keys_ofList_subperm entries).perm_of_length_le longer
    exact perm.nodup_iff.mp (ofList entries).distinct
  · intro distinct
    exact congrArg List.length (Entries.dedup_of_nodup distinct)

end OrderedMap

namespace TokenTree

open OrderedMap

/--
The name that a path spells below a name: behind a name every key has a separator in front of it,
and below no name the keys are joined from the first one on that is not empty.
-/
def spelledName (separator name : String) (path : List String) : String :=
  if name = "" then separator.intercalate (path.dropWhile (· = ""))
  else name ++ String.join (path.map (separator ++ ·))

theorem pathName_empty (separator : String) (path : List String) :
    pathName separator "" path = separator.intercalate (path.dropWhile (· = "")) := by
  induction path with
  | nil => rfl
  | cons key path ih =>
      have child : childName separator "" key = key := if_pos rfl
      rw [pathName_cons, child]
      by_cases blank : key = ""
      · rw [blank, ih, List.dropWhile_cons_of_pos (by simp)]
      · rw [pathName_eq_intercalate blank, List.dropWhile_cons_of_neg (by simpa using blank)]

theorem pathName_of_ne {separator name : String} (named : name ≠ "") (path : List String) :
    pathName separator name path = name ++ String.join (path.map (separator ++ ·)) := by
  induction path generalizing name with
  | nil => simp
  | cons key path ih =>
      have child : childName separator name key = name ++ separator ++ key := if_neg named
      have filled : name ++ separator ++ key ≠ "" := by simp [named]
      rw [pathName_cons, child, ih filled, List.map_cons, String.join_cons]
      simp only [String.append_assoc]

theorem pathName_eq_spelledName (separator name : String) (path : List String) :
    pathName separator name path = spelledName separator name path := by
  unfold spelledName
  split
  case isTrue blank => rw [blank, pathName_empty]
  case isFalse named => exact pathName_of_ne named path

/--
Flattening any tree under any name is the one map that holds of every spelled name the place of its
first leaf and the value of its last one.  It has at most as many entries as there are leaves, and
as many exactly if all leaves spell different names.
-/
theorem flatten_last_wins (separator name : String) (tree : TokenTree) :
    let spelled := tree.leaves.map fun leaf => (spelledName separator name leaf.1, leaf.2)
    (∀ flat : FlatTokens, LastWins spelled flat ↔ flat = tree.flatten separator name) ∧
      (tree.flatten separator name).size ≤ tree.leafCount ∧
      ((tree.flatten separator name).size = tree.leafCount ↔ (Entries.keys spelled).Nodup) := by
  intro spelled
  have named : tree.namedLeaves separator name = spelled :=
    List.map_congr_left fun leaf _ => by rw [pathName_eq_spelledName]
  have count : spelled.length = tree.leafCount := by
    rw [List.length_map, length_leaves]
  rw [flatten_eq, named, ← count]
  exact ⟨fun _ => lastWins_iff, size_ofList_le spelled, size_ofList_eq_iff⟩

/-- An empty key leaves no trace in front, and the name it frees is taken over by a later leaf. -/
example :
    let tree : TokenTree := .group
      [("", .group [("", .group [("a", .group [("", .leaf (.text "first"))])])]),
        ("b", .leaf (.text "second")),
        ("a", .group [("", .leaf (.text "third"))])]
    (tree.flatten "-" "").entries = [("a-", .text "third"), ("b", .text "second")] := by
  decide

end TokenTree
end DesignTokens
