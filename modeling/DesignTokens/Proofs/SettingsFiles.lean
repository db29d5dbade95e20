import DesignTokens.ProjectConfig
import DesignTokens.Proofs.OrderedMaps
import DesignTokens.Proofs.WrittenSettings

/-!
# Settings files

Sections of distinct names, each with settings of distinct names, are read back as a table of
tables.  A configuration is written as such sections with every one of its settings, so the text of
its settings file means the configuration itself.
-/

namespace DesignTokens
namespace Toml

/-! ## Tables of sections -/

namespace Node

theorem childrenToToml_eq (children : List (String × Node)) :
    childrenToToml children = children.map fun child => (child.1, child.2.toToml) := by
  induction children with
  | nil => rfl
  | cons child children ih =>
      obtain ⟨key, node⟩ := child
      rw [childrenToToml, ih]
      rfl

/-- A step that adds one child under a name that is not there adds one for each of many names. -/
theorem foldlM_of_fresh {α : Type} {step : List (String × Node) → α → Option (List (String × Node))}
    {child : α → String × Node} {items : List α} {children : List (String × Node)}
    (adds : ∀ item ∈ items, ∀ children, (child item).1 ∉ Entries.keys children →
      step children item = some (children ++ [child item]))
    (fresh : (Entries.keys (children ++ items.map child)).Nodup) :
    items.foldlM step children = some (children ++ items.map child) := by
  induction items generalizing children with
  | nil => simp
  | cons item items ih =>
      obtain ⟨first, others⟩ := List.forall_mem_cons.mp adds
      have absent : (child item).1 ∉ Entries.keys children := by
        rw [Entries.keys_append, List.map_cons] at fresh
        exact fun there => (List.nodup_append.mp fresh).2.2 _ there _ List.mem_cons_self rfl
      have grown : children ++ (item :: items).map child =
          children ++ [child item] ++ items.map child := by
        simp
      rw [grown] at fresh ⊢
      rw [List.foldlM_cons, first children absent]
      exact ih others fresh

theorem addPair?_of_fresh {name : String} {children : List (String × Node)}
    (fresh : name ∉ Entries.keys children) (value : Toml) :
    addPair? children ⟨⟨[], name⟩, value⟩ = some (children ++ [(name, .value value)]) := by
  have added : addPair? children ⟨⟨[], name⟩, value⟩ = addNew? name value children := by
    simp [addPair?, changeAt?]
  rw [added, addNew?, Entries.get?_eq_none_iff.mpr fresh, Entries.insert_of_not_mem _ fresh]

/-- An entry of a table as a pair with a plain key. -/
def pairOf (entry : String × Toml) : Pair := ⟨⟨[], entry.1⟩, entry.2⟩

/-- An entry of a table as a child that is finished. -/
def finished (entry : String × Toml) : String × Node := (entry.1, .value entry.2)

theorem addPairs?_of_distinct {entries : List (String × Toml)}
    (distinct : (Entries.keys entries).Nodup) :
    addPairs? [] (entries.map pairOf) = some (entries.map finished) := by
  rw [addPairs?, List.foldlM_map]
  refine foldlM_of_fresh (fun entry _ children fresh => addPair?_of_fresh fresh entry.2) ?_
  rw [List.nil_append, Entries.keys, List.map_map]
  exact distinct

theorem childrenToToml_finished (entries : List (String × Toml)) :
    childrenToToml (entries.map finished) = entries := by
  rw [childrenToToml_eq, List.map_map]
  exact List.map_id entries

end Node

namespace Section

/-- The settings of a section with their values. -/
def entries (group : Section) : List (String × Toml) :=
  group.settings.map fun setting => (setting.1, setting.2.toToml)

/-- The section as a block of a document. -/
def block (group : Section) : Block := ⟨.table ⟨[], group.name⟩, group.entries.map Node.pairOf⟩

/-- The section as a child of a document. -/
def child (group : Section) : String × Node :=
  (group.name, .table .explicit (group.entries.map Node.finished))

theorem blocks_settings (settings : List (String × Setting)) (statements : List Reader.Statement) :
    Reader.blocks (settings.map Reader.settingStatement ++ statements) =
      (settings.map (fun setting => Node.pairOf (setting.1, setting.2.toToml)) ++
        (Reader.blocks statements).1, (Reader.blocks statements).2) := by
  induction settings with
  | nil => rfl
  | cons setting settings ih =>
      rw [List.map_cons, List.cons_append, Reader.settingStatement, Reader.blocks, ih]
      rfl

theorem blocks_statements (groups : List Section) :
    Reader.blocks (groups.flatMap statements) = ([], groups.map block) := by
  induction groups with
  | nil => rfl
  | cons group groups ih =>
      rw [List.flatMap_cons, statements, List.cons_append, Reader.blocks, blocks_settings, ih]
      simp [block, entries, Function.comp_def]

theorem addBlock?_block {group : Section} (distinct : (Entries.keys group.settings).Nodup)
    {children : List (String × Node)} (fresh : group.name ∉ Entries.keys children) :
    Node.addBlock? children group.block = some (children ++ [group.child]) := by
  have filled : Node.addPairs? [] (group.entries.map Node.pairOf) =
      some (group.entries.map Node.finished) := by
    refine Node.addPairs?_of_distinct ?_
    rw [entries, Entries.keys, List.map_map]
    exact distinct
  have opened : Node.addBlock? children group.block =
      Node.openTable? group.name (group.entries.map Node.pairOf) children := by
    simp [Node.addBlock?, block, Node.changeAt?]
  rw [opened, Node.openTable?, Entries.get?_eq_none_iff.mpr fresh]
  simp only [filled, Option.map_some]
  rw [Entries.insert_of_not_mem _ fresh]
  rfl

theorem toToml_child (group : Section) : group.child.2.toToml = group.toToml := by
  rw [child, Node.toToml, Node.childrenToToml_finished]
  rfl

end Section

/-- The names of sections, and in each of them the names of its settings. -/
def sectionNames (groups : List Section) : List (String × List String) :=
  groups.map fun group => (group.name, Entries.keys group.settings)

/-- Names that are keys without quotes and differ from each other where they have to. -/
def WellNamed (names : List (String × List String)) : Prop :=
  (names.map Prod.fst).Nodup ∧
    ∀ group ∈ names, IsBareKey group.1 ∧ group.2.Nodup ∧ ∀ name ∈ group.2, IsBareKey name

variable {groups : List Section}

theorem ofBlocks?_block (distinct : (groups.map Section.name).Nodup)
    (each : ∀ group ∈ groups, (Entries.keys group.settings).Nodup) :
    ofBlocks? [] (groups.map Section.block) =
      some (.table (groups.map fun group => (group.name, group.toToml))) := by
  have built : (groups.map Section.block).foldlM Node.addBlock? [] =
      some (groups.map Section.child) := by
    rw [List.foldlM_map]
    refine Node.foldlM_of_fresh (fun group member children fresh =>
      Section.addBlock?_block (each group member) fresh) ?_
    rw [List.nil_append, Entries.keys, List.map_map]
    exact distinct
  have values : Node.childrenToToml (groups.map Section.child) =
      groups.map fun group => (group.name, group.toToml) := by
    rw [Node.childrenToToml_eq, List.map_map]
    exact List.map_congr_left fun group _ => congrArg (Prod.mk group.name) group.toToml_child
  rw [ofBlocks?, Node.addPairs?]
  simp [built, values]

theorem skipMark_sectionLines (groups : List Section) :
    Reader.skipMark (sectionLines groups) = sectionLines groups := by
  cases groups with
  | nil => rfl
  | cons group groups =>
      obtain ⟨rest, joined, _⟩ := exists_sectionLines_cons group groups
      rw [joined, Section.toList_write]
      rfl

/-- Written sections are read back as the table of their tables. -/
theorem read?_writeSections (named : WellNamed (sectionNames groups)) :
    read? (writeSections groups) =
      some (.table (groups.map fun group => (group.name, group.toToml))) := by
  obtain ⟨distinct, each⟩ := named
  rw [sectionNames, List.map_map] at distinct
  have parts : ∀ group ∈ groups, IsBareKey group.name ∧ (Entries.keys group.settings).Nodup ∧
      ∀ name ∈ Entries.keys group.settings, IsBareKey name :=
    fun group member => each _ (List.mem_map_of_mem member)
  have bare : ∀ group ∈ groups, group.Bare := fun group member =>
    ⟨(parts group member).1, fun setting inside =>
      (parts group member).2.2 _ (List.mem_map_of_mem inside)⟩
  have lines := statements?_sectionLines bare
    (Nat.lt_succ_of_le (length_flatMap_statements_le groups))
  rw [read?, toList_writeSections, skipMark_sectionLines]
  simp only [lines, Option.bind_eq_bind, Option.bind_some, Section.blocks_statements]
  exact ofBlocks?_block distinct fun group member => (parts group member).2.1

end Toml

namespace ProjectConfig

theorem wellNamed_sections (project : ProjectConfig) :
    Toml.WellNamed (Toml.sectionNames project.sections) := by
  have names : Toml.sectionNames project.sections =
      [("input", ["path", "root_key"]),
        ("output", ["dir", "palette_dir", "components_dir", "stylesheet_ext"]),
        ("tokens", ["prefix", "separator", "leaf_field", "reference_marker",
          "common_categories"])] := rfl
  rw [names]
  refine ⟨by simp, fun group member => ?_⟩
  simp only [List.mem_cons, List.not_mem_nil, or_false] at member
  rcases member with rfl | rfl | rfl
  · exact ⟨rfl, by simp, by simp [Toml.IsBareKey, Toml.Reader.isKeyChar]⟩
  · exact ⟨rfl, by simp, by simp [Toml.IsBareKey, Toml.Reader.isKeyChar]⟩
  · exact ⟨rfl, by simp, by simp [Toml.IsBareKey, Toml.Reader.isKeyChar]⟩

theorem texts?_array (values : List String) :
    Toml.texts? (.array (values.map .string)) = some values := by
  induction values with
  | nil => rfl
  | cons value values ih =>
      rw [Toml.texts?] at ih ⊢
      rw [List.map_cons, List.mapM_cons, ih]
      rfl

/-- The table of the sections of a configuration. -/
def settings (project : ProjectConfig) : Toml :=
  .table (project.sections.map fun group => (group.name, group.toToml))

theorem inputOf?_settings (project : ProjectConfig) (default : Path × String) :
    sectionOf? project.settings "input" Fields.ofToml? inputOf? default =
      some (project.input, project.rootKey) := rfl

theorem outputOf?_settings (project : ProjectConfig) (default : Path × Layout) :
    sectionOf? project.settings "output" Fields.ofTomlTable? outputOf? default =
      some (project.output, project.layout) := rfl

theorem tokensOf?_settings (project : ProjectConfig) (default : Config) :
    sectionOf? project.settings "tokens" Fields.ofToml? Config.ofFields? default =
      some project.tokens := by
  have taken : sectionOf? project.settings "tokens" Fields.ofToml? Config.ofFields? default =
      (Toml.texts? (.array (project.tokens.categories.map .string))).bind fun categories =>
        some { project.tokens with categories } := rfl
  rw [taken, texts?_array]
  rfl

/-- The sections of a configuration mean the configuration. -/
theorem ofToml?_settings (project : ProjectConfig) : ofToml? project.settings = some project := by
  rw [ofToml?]
  simp only [inputOf?_settings, outputOf?_settings, tokensOf?_settings, Option.bind_eq_bind,
    Option.bind_some]
  rfl

/-- What is written for a configuration is read back as the configuration. -/
theorem settings_read_back (project : ProjectConfig) : read? project.write = some project := by
  rw [read?, write, Toml.read?_writeSections project.wellNamed_sections]
  exact project.ofToml?_settings

end ProjectConfig
end DesignTokens
