import DesignTokens.CompiledTheme
import DesignTokens.Proofs.Documents

/-!
# Theme sets

The themes of a document are the members of the value under its root key, or of the document itself
if it lacks that key.  A document is taken in exactly if both are objects and all themes are, and
it is refused for the first of them that is not.  Nothing inside a theme is ever refused, and what
a theme is compiled to depends on nothing but its own value.
-/

namespace DesignTokens

/-- The members of an object; other values have none. -/
def Json.members : Json → List (String × Json)
  | .object members => members
  | _ => []

namespace Theme

variable {config : Config} {name : String} {value : Json}

theorem exists_ofJson_iff : (∃ theme, ofJson config name value = .ok theme) ↔
    value.kind = .object := by
  refine ⟨fun ⟨_, taken⟩ => (ofJson_eq_ok taken).1, fun shaped => ?_⟩
  cases value with
  | object members => exact ⟨_, rfl⟩
  | _ => exact nomatch shaped

end Theme

namespace TokenDocument

/-- The entries of the theme set of a document, with anything as their values. -/
def themeEntries (rootKey : String) (json : Json) : List (String × Json) :=
  ((json.get? rootKey).getD json).members

/-- A document whose theme set is an object of objects. -/
structure WellShaped (rootKey : String) (json : Json) : Prop where
  /-- The document is an object. -/
  document : json.kind = .object
  /-- What is under the root key is an object. -/
  themeSet : ∀ value, json.get? rootKey = some value → value.kind = .object
  /-- All themes are objects. -/
  themes : ∀ entry ∈ themeEntries rootKey json, entry.2.kind = .object

/-- What comes first in a document that should be an object and is not, as an error. -/
inductive Misshapen (rootKey : String) (json : Json) : TokenError → Prop where
  /-- The document is no object. -/
  | document (odd : json.kind ≠ .object) : Misshapen rootKey json (.notAnObject json.kind)
  /-- What is under the root key is no object. -/
  | themeSet {value : Json} (present : json.get? rootKey = some value)
      (odd : value.kind ≠ .object) : Misshapen rootKey json (.notAnObject value.kind)
  /-- A theme is no object, and all themes in front of it are objects. -/
  | theme {front back : List (String × Json)} {name : String} {value : Json}
      (document : json.kind = .object)
      (themeSet : ∀ value, json.get? rootKey = some value → value.kind = .object)
      (themes : themeEntries rootKey json = front ++ (name, value) :: back)
      (shaped : ∀ entry ∈ front, entry.2.kind = .object) (odd : value.kind ≠ .object) :
      Misshapen rootKey json (.invalidTheme name)

variable {rootKey : String} {config : Config} {json : Json} {document : TokenDocument}

/-! ## Finding the theme set -/

theorem themeSet_eq_ok_iff {set : List (String × Json)} :
    themeSet rootKey json = .ok set ↔
      json.kind = .object ∧ (∀ value, json.get? rootKey = some value → value.kind = .object) ∧
        set = themeEntries rootKey json := by
  cases json with
  | object members =>
      rw [themeSet, themeEntries, Json.get?]
      cases Entries.get? rootKey members with
      | none => simp [Json.kind, Json.members, eq_comm]
      | some value =>
          cases value with
          | object set => simp [Json.kind, Json.members, eq_comm]
          | _ => simp [Json.kind]
  | _ => simp [themeSet, Json.kind]

theorem themeSet_eq_error_iff {cause : TokenError} :
    themeSet rootKey json = .error cause ↔
      json.kind ≠ .object ∧ cause = .notAnObject json.kind ∨
        ∃ value, json.get? rootKey = some value ∧ value.kind ≠ .object ∧
          cause = .notAnObject value.kind := by
  cases json with
  | object members =>
      rw [themeSet, Json.get?]
      cases Entries.get? rootKey members with
      | none => simp [Json.kind]
      | some value =>
          cases value with
          | object set => simp [Json.kind]
          | _ => simp [Json.kind, eq_comm]
  | _ => simp [themeSet, Json.kind, Json.get?, eq_comm]

/-! ## Taking in the themes -/

theorem ofJson_eq_ok_iff :
    ofJson rootKey config json = .ok document ↔
      json.kind = .object ∧ (∀ value, json.get? rootKey = some value → value.kind = .object) ∧
        (themeEntries rootKey json).mapM (fun entry => Theme.ofJson config entry.1 entry.2) =
          .ok document.themes := by
  rw [ofJson_eq, bind_eq_ok_iff]
  constructor
  · rintro ⟨set, found, taken⟩
    obtain ⟨themes, mapped, ⟨⟩⟩ := bind_eq_ok_iff.mp taken
    obtain ⟨object, inner, rfl⟩ := themeSet_eq_ok_iff.mp found
    exact ⟨object, inner, mapped⟩
  · rintro ⟨object, inner, mapped⟩
    exact ⟨_, themeSet_eq_ok_iff.mpr ⟨object, inner, rfl⟩, bind_eq_ok_iff.mpr ⟨_, mapped, rfl⟩⟩

theorem wellShaped_of_ofJson (taken : ofJson rootKey config json = .ok document) :
    WellShaped rootKey json := by
  obtain ⟨object, inner, mapped⟩ := ofJson_eq_ok_iff.mp taken
  exact ⟨object, inner, fun entry member =>
    Theme.exists_ofJson_iff.mp (exists_ok_of_mapM mapped entry member)⟩

theorem misshapen_of_ofJson {cause : TokenError}
    (refused : ofJson rootKey config json = .error cause) : Misshapen rootKey json cause := by
  rw [ofJson_eq] at refused
  rcases bind_eq_error_iff.mp refused with misplaced | ⟨set, found, refused⟩
  · rcases themeSet_eq_error_iff.mp misplaced with ⟨odd, rfl⟩ | ⟨value, present, odd, rfl⟩
    · exact .document odd
    · exact .themeSet present odd
  · obtain ⟨object, inner, rfl⟩ := themeSet_eq_ok_iff.mp found
    rcases bind_eq_error_iff.mp refused with stopped | ⟨_, _, taken⟩
    · obtain ⟨front, ⟨name, value⟩, back, split, shaped, failed⟩ :=
        exists_first_failure_of_mapM stopped
      obtain ⟨odd, rfl⟩ := Theme.ofJson_eq_error_iff.mp failed
      exact .theme object inner split
        (fun entry member => Theme.exists_ofJson_iff.mp (shaped entry member)) odd
    · exact nomatch taken

theorem ofJson_of_misshapen {cause : TokenError} (misshapen : Misshapen rootKey json cause) :
    ofJson rootKey config json = .error cause := by
  rw [ofJson_eq, bind_eq_error_iff]
  cases misshapen with
  | document odd => exact Or.inl (themeSet_eq_error_iff.mpr (Or.inl ⟨odd, rfl⟩))
  | themeSet present odd =>
      exact Or.inl (themeSet_eq_error_iff.mpr (Or.inr ⟨_, present, odd, rfl⟩))
  | theme object inner split shaped odd =>
      refine Or.inr ⟨_, themeSet_eq_ok_iff.mpr ⟨object, inner, split.symm⟩, ?_⟩
      refine bind_eq_error_iff.mpr (Or.inl (mapM_of_first_failure (fun entry member => ?_) ?_))
      · exact Theme.exists_ofJson_iff.mpr (shaped entry member)
      · exact Theme.ofJson_eq_error_iff.mpr ⟨odd, rfl⟩

theorem not_wellShaped_of_misshapen {cause : TokenError}
    (misshapen : Misshapen rootKey json cause) : ¬ WellShaped rootKey json := by
  rintro ⟨object, inner, themes⟩
  cases misshapen with
  | document odd => exact odd object
  | themeSet present odd => exact odd (inner _ present)
  | theme _ _ split _ odd =>
      exact odd (themes _ (split ▸ List.mem_append_right _ List.mem_cons_self))

/-! ## Compiling the themes -/

/-- The stylesheets of one entry of a theme set. -/
def compileEntry (config : Config) (entry : String × Json) : Except TokenError CompiledTheme :=
  (Theme.ofJson config entry.1 entry.2).map (Theme.compile config)

theorem name_of_compileEntry {entry : String × Json} {output : CompiledTheme}
    (compiled : compileEntry config entry = .ok output) : output.name = entry.1 := by
  unfold compileEntry at compiled
  cases taken : Theme.ofJson config entry.1 entry.2 with
  | error cause =>
      rw [taken] at compiled
      exact nomatch compiled
  | ok theme =>
      rw [taken] at compiled
      cases compiled
      exact (Theme.ofJson_eq_ok taken).2

/-- The outputs of a document are those of its entries, taken one by one. -/
theorem forall₂_compileEntry (taken : ofJson rootKey config json = .ok document) :
    List.Forall₂ (fun entry output => compileEntry config entry = .ok output)
      (themeEntries rootKey json) (document.compile config) := by
  obtain ⟨_, _, mapped⟩ := ofJson_eq_ok_iff.mp taken
  refine List.forall₂_map_right_iff.mpr ((forall₂_of_mapM mapped).imp fun entry theme taken => ?_)
  rw [compileEntry, taken]
  rfl

/-- The output for a theme is that of the first entry with its name. -/
theorem find?_of_forall₂ {entries : List (String × Json)} {outputs : List CompiledTheme}
    (each : List.Forall₂ (fun entry output => compileEntry config entry = .ok output)
      entries outputs) (name : String) :
    (outputs.find? fun output => output.name = name) =
      (Entries.get? name entries).bind fun value =>
        (compileEntry config (name, value)).toOption := by
  induction each with
  | nil => rfl
  | @cons entry output entries outputs compiled _ ih =>
      -- Both searches stop at the same place, for an output has the name of its entry.
      obtain ⟨head, value⟩ := entry
      have named := name_of_compileEntry compiled
      by_cases here : head = name
      · subst here
        simp [Entries.get?, named, compiled, Except.toOption]
      · simp [Entries.get?, named, here, ih]

theorem names_of_forall₂ {entries : List (String × Json)} {outputs : List CompiledTheme}
    (each : List.Forall₂ (fun entry output => compileEntry config entry = .ok output)
      entries outputs) : outputs.map CompiledTheme.name = Entries.keys entries := by
  induction each with
  | nil => rfl
  | cons compiled _ ih => rw [List.map_cons, ih, name_of_compileEntry compiled]; rfl

/--
A document is taken in exactly if it is well shaped, and is refused for the first thing that is not
in shape.  Its themes are compiled one by one in their order, and the output for a name is the same
in all documents that have the same value, or none, under that name.
-/
theorem themes_stand_alone (rootKey : String) (config : Config) (json : Json) :
    ((∃ document, ofJson rootKey config json = .ok document) ↔ WellShaped rootKey json) ∧
      (∀ cause, ofJson rootKey config json = .error cause ↔ Misshapen rootKey json cause) ∧
      ∀ document, ofJson rootKey config json = .ok document →
        (document.compile config).map CompiledTheme.name =
            Entries.keys (themeEntries rootKey json) ∧
          ∀ otherKey other otherDocument, ofJson otherKey config other = .ok otherDocument →
            ∀ name, Entries.get? name (themeEntries rootKey json) =
                Entries.get? name (themeEntries otherKey other) →
              ((document.compile config).find? fun output => output.name = name) =
                (otherDocument.compile config).find? fun output => output.name = name := by
  refine ⟨⟨fun ⟨_, taken⟩ => wellShaped_of_ofJson taken, fun shaped => ?_⟩,
    fun cause => ⟨misshapen_of_ofJson, ofJson_of_misshapen⟩, fun document taken => ⟨?_, ?_⟩⟩
  · cases outcome : ofJson rootKey config json with
    | ok document => exact ⟨document, rfl⟩
    | error cause => exact absurd shaped (not_wellShaped_of_misshapen (misshapen_of_ofJson outcome))
  · exact names_of_forall₂ (forall₂_compileEntry taken)
  · intro otherKey other otherDocument takenToo name same
    rw [find?_of_forall₂ (forall₂_compileEntry taken), same,
      find?_of_forall₂ (forall₂_compileEntry takenToo)]

/-- A theme with nothing in it that a theme should have. -/
def oddTheme : Json :=
  .object [("palette", .array [.null]), ("border", .bool false),
    ("components", .object [("a", .object [("value", .string "\x7bcabin x theme.cabin x.b\x7d")])]),
    ("fontSizeM", .object [])]

/-- A document that has the theme under the root key, beside a stray value of the same name. -/
def rootedDocument : Json :=
  .object [("light", .null), (defaultRootKey, .object [("dark", .object []), ("light", oddTheme)])]

/-- A document without the root key that has the theme in front of another one. -/
def rootlessDocument : Json :=
  .object [("light", oddTheme), ("high", .object [("palette", .string "none")])]

/-- Both documents are taken in, and the theme is compiled to the same in both. -/
theorem odd_theme_stands_alone :
    ∃ document other, ofJson defaultRootKey {} rootedDocument = .ok document ∧
      ofJson defaultRootKey {} rootlessDocument = .ok other ∧
      (document.compile {}).map CompiledTheme.name = ["dark", "light"] ∧
      ((document.compile {}).find? fun output => output.name = "light") =
        (other.compile {}).find? fun output => output.name = "light" := by
  obtain ⟨accepts, _, compiles⟩ := themes_stand_alone defaultRootKey {} rootedDocument
  obtain ⟨acceptsToo, _, _⟩ := themes_stand_alone defaultRootKey {} rootlessDocument
  obtain ⟨document, taken⟩ := accepts.mpr
    ⟨rfl, fun _ present => by cases present; rfl, by decide⟩
  obtain ⟨other, takenToo⟩ := acceptsToo.mpr
    ⟨rfl, fun _ present => (nomatch present), by decide⟩
  obtain ⟨names, alone⟩ := compiles document taken
  exact ⟨document, other, taken, takenToo, names, alone defaultRootKey _ other takenToo "light" rfl⟩

end TokenDocument
end DesignTokens
