import DesignTokens.Proofs.Combining
import DesignTokens.Proofs.JsonStrings
import DesignTokens.Proofs.OneLineDocuments

/-!
# The lines of a stylesheet

A stylesheet is made of whole lines: banners, headers, empty lines and declarations.  Only
declarations start with two dashes, so they can be told from all others, and they follow the
entries of the value map one by one.
-/

namespace DesignTokens

open Text

/-- A line that declares a name. -/
def declarationLine (name declared : String) : String :=
  name ++ ": " ++ declared ++ ";"

/-- Whether a line starts like a declaration. -/
def startsDeclaration (line : String) : Bool :=
  (after? "--".toList line.toList).isSome

theorem startsDeclaration_dashes (rest : String) : startsDeclaration ("--" ++ rest) = true := by
  rw [startsDeclaration, String.toList_append, after?_append]
  rfl

theorem startsDeclaration_slash (rest : String) : startsDeclaration ("/" ++ rest) = false := by
  rw [startsDeclaration, String.toList_append]
  rfl

theorem startsDeclaration_line {name : String} (dashes : ∃ rest, name = "--" ++ rest)
    (declared : String) : startsDeclaration (declarationLine name declared) = true := by
  obtain ⟨rest, rfl⟩ := dashes
  rw [declarationLine, String.append_assoc, String.append_assoc, String.append_assoc]
  exact startsDeclaration_dashes _

theorem oneLine_declarationLine {name declared : String} (first : OneLine name)
    (second : OneLine declared) : OneLine (declarationLine name declared) :=
  oneLine_append.mpr
    ⟨oneLine_append.mpr ⟨oneLine_append.mpr ⟨first, by decide⟩, second⟩, by decide⟩

/-- The name stands in front of the first colon with a blank behind it. -/
theorem head?_split_declarationLine {name : String} (absent : Text.contains name ": " = false)
    (declared : String) : (split ": " (declarationLine name declared)).head? = some name := by
  rw [declarationLine, String.append_assoc]
  exact head?_split_pair (by decide) absent (declared ++ ";")

namespace Section

/-- The lines of the header that a label needs behind the last one. -/
def headerLines (last label : Option String) : List String :=
  match label with
  | none => []
  | some text =>
      if last = some text then [] else ["", "/* ----------- " ++ text ++ " -----------*/"]

theorem headerAfter_eq (last label : Option String) :
    headerAfter last label = ofLines (headerLines last label) := by
  cases label with
  | none => rfl
  | some text =>
      simp only [headerAfter, headerLines]
      split
      · rfl
      · unfold header
        rw [← String.toList_inj]
        simp [ofLines]

theorem startsDeclaration_headerLines {last label : Option String} {line : String}
    (member : line ∈ headerLines last label) : startsDeclaration line = false := by
  unfold headerLines at member
  split at member
  · exact absurd member List.not_mem_nil
  · split at member
    · exact absurd member List.not_mem_nil
    · rcases List.mem_pair.mp member with rfl | rfl
      · rfl
      · simp [startsDeclaration, after?]

theorem oneLine_headerLines {last label : Option String} (whole : ∀ text ∈ label, OneLine text)
    {line : String} (member : line ∈ headerLines last label) : OneLine line := by
  unfold headerLines at member
  split at member
  · exact absurd member List.not_mem_nil
  · split at member
    · exact absurd member List.not_mem_nil
    · rcases List.mem_pair.mp member with rfl | rfl
      · decide
      · exact oneLine_append.mpr
          ⟨oneLine_append.mpr ⟨by decide, whole _ rfl⟩, by decide⟩

/-- The lines of declarations in order, with the headers between them. -/
def entryLines (kind : SectionKind) (config : Config) (last : Labels) :
    List Declaration → List String
  | [] => []
  | declaration :: declarations =>
      let labels := labels kind config declaration.name
      headerLines last.component labels.component ++ headerLines last.group labels.group ++
        declarationLine declaration.name declaration.declared ::
          entryLines kind config (last.after labels) declarations

theorem entryText_eq (last labels : Labels) (declaration : Declaration) :
    entryText last labels declaration =
      ofLines (headerLines last.component labels.component ++ headerLines last.group labels.group ++
        [declarationLine declaration.name declaration.declared]) := by
  rw [entryText, headerAfter_eq, headerAfter_eq, ofLines_append, ofLines_append,
    ← String.toList_inj]
  simp [ofLines, declarationLine, Declaration.line]

/-- A section is its lines. -/
theorem join_entryTexts (kind : SectionKind) (config : Config) (last : Labels)
    (declarations : List Declaration) :
    String.join (entryTexts kind config last declarations) =
      ofLines (entryLines kind config last declarations) := by
  induction declarations generalizing last with
  | nil => rfl
  | cons declaration declarations ih =>
      rw [entryTexts, entryLines, String.join_cons, ih, entryText_eq, ← ofLines_append,
        List.append_assoc]
      rfl

/-- Leaving out the headers leaves the declarations. -/
theorem filter_entryLines (kind : SectionKind) (config : Config) (last : Labels)
    {declarations : List Declaration}
    (dashes : ∀ declaration ∈ declarations, ∃ rest, declaration.name = "--" ++ rest) :
    (entryLines kind config last declarations).filter startsDeclaration =
      declarations.map fun declaration =>
        declarationLine declaration.name declaration.declared := by
  induction declarations generalizing last with
  | nil => rfl
  | cons declaration declarations ih =>
      have header : ∀ last label, (headerLines last label).filter startsDeclaration = [] := by
        intro last label
        rw [List.filter_eq_nil_iff]
        intro line member
        simp [startsDeclaration_headerLines member]
      have here :
          startsDeclaration (declarationLine declaration.name declaration.declared) = true :=
        startsDeclaration_line (dashes declaration List.mem_cons_self) _
      have later := fun last => ih last fun other member =>
        dashes other (List.mem_cons_of_mem declaration member)
      rw [entryLines, List.filter_append, List.filter_append, header, header,
        List.filter_cons_of_pos here, later]
      rfl

theorem oneLine_label? {stem separator name label : String} {position : Nat}
    (whole : OneLine name) (found : label? stem separator name position = some label) :
    OneLine label :=
  oneLine_of_mem_split (fun inside => whole (mem_of_mem_eraseFirst inside))
    (List.mem_of_getElem? found)

theorem oneLine_entryLines (kind : SectionKind) (config : Config) (last : Labels)
    {declarations : List Declaration}
    (whole : ∀ declaration ∈ declarations,
      OneLine declaration.name ∧ OneLine declaration.declared) :
    ∀ line ∈ entryLines kind config last declarations, OneLine line := by
  induction declarations generalizing last with
  | nil => exact fun line member => absurd member List.not_mem_nil
  | cons declaration declarations ih =>
      intro line member
      obtain ⟨name, declared⟩ := whole declaration List.mem_cons_self
      have component : ∀ text ∈ (labels kind config declaration.name).component, OneLine text := by
        intro text found
        simp only [labels] at found
        split at found
        · exact oneLine_label? name found
        · exact absurd found (Option.not_mem_none text)
      have group : ∀ text ∈ (labels kind config declaration.name).group, OneLine text :=
        fun text found => oneLine_label? name found
      rw [entryLines, List.mem_append, List.mem_append, List.mem_cons] at member
      rcases member with (front | front) | rfl | later
      · exact oneLine_headerLines component front
      · exact oneLine_headerLines group front
      · exact oneLine_declarationLine name declared
      · exact ih _ (fun other there => whole other (List.mem_cons_of_mem declaration there))
          line later

end Section

namespace Stylesheet

/-- The lines of the text that declare a name. -/
def declarationLines (sheet : Stylesheet) : List String :=
  (lines sheet.text).filter startsDeclaration

/-- The line that the two maps ask for under a name and its value. -/
def entryLine (sheet : Stylesheet) (entry : String × String) : String :=
  declarationLine entry.1
    (if sheet.references.contains entry.1 then "var(" ++ entry.2 ++ ")" else entry.2)

/-- The lines of a root block around sections with banners. -/
def blockLines (sections : List (String × List String)) : List String :=
  ["", ":root,:host\x7b"] ++
    (sections.flatMap fun titled => banner titled.1 :: (titled.2 ++ [""])) ++ ["\x7d"]

theorem rootBlock_eq (sections : List (String × List String)) :
    rootBlock (sections.flatMap fun titled => [banner titled.1, ofLines titled.2]) =
      ofLines (blockLines sections) := by
  have inside : String.join ((sections.flatMap fun titled =>
      [banner titled.1, ofLines titled.2]).map fun line => line ++ "\n") =
        ofLines (sections.flatMap fun titled => banner titled.1 :: (titled.2 ++ [""])) := by
    induction sections with
    | nil => rfl
    | cons titled sections ih =>
        rw [List.flatMap_cons, List.map_append, String.join_append, ih, List.flatMap_cons,
          ofLines_append, ofLines_cons, ofLines_append, ← String.toList_inj]
        simp [ofLines]
  unfold rootBlock
  rw [inside, blockLines, ofLines_append, ofLines_append, ← String.toList_inj]
  simp [ofLines]

theorem startsDeclaration_banner (title : String) : startsDeclaration (banner title) = false := by
  have opening : "/***************** " = "/" ++ "***************** " := by decide
  unfold banner
  rw [opening, String.append_assoc, String.append_assoc]
  exact startsDeclaration_slash _

theorem filter_blockLines (sections : List (String × List String)) :
    (blockLines sections).filter startsDeclaration =
      sections.flatMap fun titled => titled.2.filter startsDeclaration := by
  have inside : (sections.flatMap fun titled =>
      banner titled.1 :: (titled.2 ++ [""])).filter startsDeclaration =
        sections.flatMap fun titled => titled.2.filter startsDeclaration := by
    induction sections with
    | nil => rfl
    | cons titled sections ih =>
        have blank : [""].filter startsDeclaration = [] := rfl
        rw [List.flatMap_cons, List.filter_append, ih, List.filter_cons_of_neg
          (by simp [startsDeclaration_banner]), List.filter_append, blank, List.append_nil,
          List.flatMap_cons]
  have before : ["", ":root,:host\x7b"].filter startsDeclaration = [] := rfl
  have behind : ["\x7d"].filter startsDeclaration = [] := rfl
  rw [blockLines, List.filter_append, List.filter_append, inside, before, behind,
    List.nil_append, List.append_nil]

theorem oneLine_blockLines {sections : List (String × List String)}
    (whole : ∀ titled ∈ sections, OneLine titled.1 ∧ ∀ line ∈ titled.2, OneLine line) :
    ∀ line ∈ blockLines sections, OneLine line := by
  intro line member
  rcases List.mem_append.mp member with member | last
  · rcases List.mem_append.mp member with first | inside
    · rcases List.mem_pair.mp first with rfl | rfl
      · decide
      · decide
    · obtain ⟨titled, listed, inside⟩ := List.mem_flatMap.mp inside
      obtain ⟨title, content⟩ := whole titled listed
      rcases List.mem_cons.mp inside with rfl | inside
      · exact oneLine_append.mpr ⟨oneLine_append.mpr ⟨by decide, title⟩, by decide⟩
      · rcases List.mem_append.mp inside with inside | blank
        · exact content line inside
        · rw [List.mem_singleton.mp blank]
          decide
  · rw [List.mem_singleton.mp last]
    decide

/-- The declarations of a root block are those of its sections. -/
theorem declarationLines_rootBlock {sheet : Stylesheet} {sections : List (String × List String)}
    (text : sheet.text =
      rootBlock (sections.flatMap fun titled => [banner titled.1, ofLines titled.2]))
    (whole : ∀ titled ∈ sections, OneLine titled.1 ∧ ∀ line ∈ titled.2, OneLine line) :
    sheet.declarationLines =
      sections.flatMap fun titled => titled.2.filter startsDeclaration := by
  have rest : [""].filter startsDeclaration = [] := rfl
  rw [declarationLines, text, rootBlock_eq, lines_ofLines (oneLine_blockLines whole),
    List.filter_append, filter_blockLines, rest, List.append_nil]

theorem fontText_eq (font : OrderedMap String String) :
    fontText font = ofLines (font.entries.map fun entry => declarationLine entry.1 entry.2) := by
  have same : ∀ entry : String × String,
      entry.1 ++ ": " ++ entry.2 ++ ";\n" = declarationLine entry.1 entry.2 ++ "\n" := by
    intro entry
    rw [← String.toList_inj]
    simp [declarationLine]
  simp only [fontText, ofLines, List.map_map, Function.comp_def, same]

end Stylesheet

namespace FontMetric

theorem oneLine_declaredName (metric : FontMetric) : OneLine metric.declaredName := by
  rcases metric with size | size <;> cases size <;> decide

theorem declaredName_dashes (metric : FontMetric) :
    metric.declaredName = "--" ++ String.ofList (metric.declaredName.toList.drop 2) := by
  rcases metric with size | size <;> cases size <;> decide

end FontMetric

namespace FontMetrics

/-- The lines of the font declarations. -/
def fontLines (metrics : FontMetrics) : List String :=
  metrics.declarations.entries.map fun entry => declarationLine entry.1 entry.2

theorem exists_metric {metrics : FontMetrics} {entry : String × String}
    (member : entry ∈ metrics.declarations.entries) :
    ∃ metric : FontMetric, entry = (metric.declaredName, (metrics metric).toText) := by
  obtain ⟨metric, _, rfl⟩ := List.mem_map.mp (OrderedMap.mem_of_mem_ofList member)
  exact ⟨metric, rfl⟩

theorem oneLine_fontLines (metrics : FontMetrics) : ∀ line ∈ metrics.fontLines, OneLine line := by
  intro line member
  obtain ⟨entry, there, rfl⟩ := List.mem_map.mp member
  obtain ⟨metric, rfl⟩ := exists_metric there
  exact oneLine_declarationLine metric.oneLine_declaredName (metrics metric).oneLine_toText

theorem filter_fontLines (metrics : FontMetrics) :
    metrics.fontLines.filter startsDeclaration = metrics.fontLines := by
  rw [List.filter_eq_self]
  intro line member
  obtain ⟨entry, there, rfl⟩ := List.mem_map.mp member
  obtain ⟨metric, rfl⟩ := exists_metric there
  exact startsDeclaration_line ⟨_, metric.declaredName_dashes⟩ _

end FontMetrics

namespace Theme

/-- The root, the separator, the keys and the strings of a theme have no line break. -/
structure OneLine (config : Config) (theme : Theme) : Prop where
  /-- The root has no line break. -/
  root : Text.OneLine config.root
  /-- The separator has no line break. -/
  separator : Text.OneLine config.separator
  /-- No key has a line break; the keys of a common leaf start with its category. -/
  keys : ∀ kind, ∀ leaf ∈ theme.leaves kind, ∀ key ∈ leaf.1, Text.OneLine key
  /-- No string has a line break. -/
  values : ∀ kind, ∀ leaf ∈ theme.leaves kind, leaf.2.OneLine

variable {config : Config} {theme : Theme}

/-- A theme has no line breaks if its document and the configuration have none. -/
theorem OneLine.of_ofJson {name : String} {json : Json}
    (read : ofJson config name json = .ok theme) (texts : json.OneLine)
    (categories : ∀ category ∈ config.categories, Text.OneLine category)
    (root : Text.OneLine config.root) (separator : Text.OneLine config.separator) :
    theme.OneLine config where
  root := root
  separator := separator
  keys kind leaf member := (oneLine_leaves read texts categories kind leaf member).1
  values kind leaf member := (oneLine_leaves read texts categories kind leaf member).2

theorem OneLine.name (whole : theme.OneLine config) {kind : SectionKind} {name : String}
    (member : name ∈ (theme.tokens kind config).keys) : Text.OneLine name := by
  obtain ⟨leaf, there, rfl⟩ := mem_keys_tokens.mp member
  rw [leafName_eq]
  refine oneLine_intercalate whole.separator fun segment inside => ?_
  rcases List.mem_cons.mp inside with rfl | key
  · exact kind.oneLine_space whole.root
  · exact whole.keys kind leaf there segment key

/-- The lines of the declarations of a kind, with their headers. -/
def sectionLines (kind : SectionKind) (config : Config) (theme : Theme) : List String :=
  Section.entryLines kind config .start
    ((theme.tokens kind config).entries.map (Declaration.ofToken kind config))

theorem text_resolved (kind : SectionKind) (config : Config) (theme : Theme) :
    (theme.resolved kind config).text = ofLines (theme.sectionLines kind config) :=
  Section.join_entryTexts kind config .start _

theorem filter_sectionLines (kind : SectionKind) (config : Config) (theme : Theme) :
    (theme.sectionLines kind config).filter startsDeclaration =
      (theme.tokens kind config).entries.map fun token =>
        declarationLine token.1 (Declaration.ofToken kind config token).declared := by
  have dashes : ∀ declaration ∈
      (theme.tokens kind config).entries.map (Declaration.ofToken kind config),
        ∃ rest, declaration.name = "--" ++ rest := by
    intro declaration member
    obtain ⟨token, there, rfl⟩ := List.mem_map.mp member
    obtain ⟨rest, name_eq⟩ := space_of_mem_keys (OrderedMap.mem_keys.mpr ⟨token.2, there⟩)
    refine ⟨config.root ++ kind.suffix ++ rest, ?_⟩
    rw [SectionKind.space_eq, String.append_assoc, String.append_assoc] at name_eq
    rw [String.append_assoc]
    exact name_eq
  rw [sectionLines, Section.filter_entryLines kind config .start dashes, List.map_map]
  rfl

theorem OneLine.sectionLines (whole : theme.OneLine config) (kind : SectionKind) :
    ∀ line ∈ theme.sectionLines kind config, Text.OneLine line := by
  refine Section.oneLine_entryLines kind config .start fun declaration member => ?_
  obtain ⟨⟨name, value⟩, there, rfl⟩ := List.mem_map.mp member
  obtain ⟨path, leaf, _⟩ := leaf_of_mem_tokens there
  have value_line : Text.OneLine (Declaration.valueOf kind config value) :=
    Declaration.oneLine_valueOf (whole.values kind _ leaf) whole.root whole.separator kind
  refine ⟨whole.name (OrderedMap.mem_keys.mpr ⟨value, there⟩), oneLine_ite ?_ value_line⟩
  exact oneLine_append.mpr ⟨oneLine_append.mpr ⟨by decide, value_line⟩, by decide⟩

/-- The reference map of a kind has exactly the tokens that are references. -/
theorem mem_keys_references {kind : SectionKind} {token : String × TokenValue}
    (member : token ∈ (theme.tokens kind config).entries) :
    token.1 ∈ (theme.resolved kind config).references.keys ↔
      (Declaration.targetOf? kind config token.2).isSome = true := by
  rw [OrderedMap.mem_keys, Option.isSome_iff_exists]
  constructor
  · rintro ⟨target, entry⟩
    obtain ⟨value, there, found⟩ := OrderedMap.mem_filterMapValues.mp entry
    have same : token.2 = value :=
      Entries.value_unique (theme.tokens kind config).distinct member there
    exact ⟨target, same ▸ found⟩
  · rintro ⟨target, found⟩
    exact ⟨target, OrderedMap.mem_filterMapValues.mpr ⟨token.2, member, found⟩⟩

/-- A section follows its entries in a stylesheet that has its references and no others of it. -/
theorem map_entryLine_resolved {kind : SectionKind} {sheet : Stylesheet}
    (mirrors : ∀ name ∈ (theme.tokens kind config).keys,
      name ∈ sheet.references.keys ↔ name ∈ (theme.resolved kind config).references.keys) :
    (theme.resolved kind config).values.entries.map sheet.entryLine =
      (theme.sectionLines kind config).filter startsDeclaration := by
  have values : (theme.resolved kind config).values.entries =
      (theme.tokens kind config).entries.map fun token =>
        (token.1, Declaration.valueOf kind config token.2) := rfl
  rw [filter_sectionLines, values, List.map_map]
  apply List.map_congr_left
  intro token member
  have same : sheet.references.contains token.1 =
      (Declaration.targetOf? kind config token.2).isSome := by
    rw [Bool.eq_iff_iff, OrderedMap.contains_iff,
      mirrors token.1 (OrderedMap.mem_keys.mpr ⟨token.2, member⟩), mem_keys_references member]
  rw [Function.comp_apply, Stylesheet.entryLine, same]
  rfl

/-- The font lines follow the font entries in a stylesheet that has no references among them. -/
theorem map_entryLine_font {sheet : Stylesheet} (metrics : FontMetrics)
    (plain : ∀ name ∈ metrics.declarations.keys, name ∉ sheet.references.keys) :
    metrics.declarations.entries.map sheet.entryLine = metrics.fontLines := by
  apply List.map_congr_left
  intro entry member
  have absent : sheet.references.contains entry.1 = false := by
    rw [Bool.eq_false_iff, Ne, OrderedMap.contains_iff]
    exact plain entry.1 (OrderedMap.mem_keys.mpr ⟨entry.2, member⟩)
  rw [Stylesheet.entryLine, absent]
  rfl

theorem mem_keys_references_palette {name : String} :
    name ∈ (theme.compile config).palette.references.keys ↔
      name ∈ (theme.resolved .palette config).references.keys ∨
        name ∈ (theme.resolved .common config).references.keys :=
  OrderedMap.mem_keys_merge

theorem OneLine.declarationLines_palette (whole : theme.OneLine config) :
    (theme.compile config).palette.declarationLines =
      (theme.compile config).palette.values.entries.map
        (theme.compile config).palette.entryLine := by
  have text : (theme.compile config).palette.text =
      Stylesheet.rootBlock ([("palette", theme.sectionLines .palette config),
        ("common", theme.sectionLines .common config), ("font", theme.font.fontLines)].flatMap
          fun titled => [Stylesheet.banner titled.1, ofLines titled.2]) := by
    have shared : (theme.compile config).palette.text =
        Stylesheet.rootBlock [Stylesheet.banner "palette", (theme.resolved .palette config).text,
          Stylesheet.banner "common", (theme.resolved .common config).text,
          Stylesheet.banner "font", Stylesheet.fontText theme.font.declarations] := rfl
    rw [shared, text_resolved, text_resolved, Stylesheet.fontText_eq]
    rfl
  have palette : ∀ name ∈ (theme.tokens .palette config).keys,
      name ∈ (theme.compile config).palette.references.keys ↔
        name ∈ (theme.resolved .palette config).references.keys := by
    intro name member
    have other : name ∉ (theme.resolved .common config).references.keys :=
      fun there => tokens_disjoint (by decide) member (mem_keys_of_mem_references there)
    rw [mem_keys_references_palette, or_iff_left other]
  have common : ∀ name ∈ (theme.tokens .common config).keys,
      name ∈ (theme.compile config).palette.references.keys ↔
        name ∈ (theme.resolved .common config).references.keys := by
    intro name member
    have other : name ∉ (theme.resolved .palette config).references.keys :=
      fun there => tokens_disjoint (by decide) member (mem_keys_of_mem_references there)
    rw [mem_keys_references_palette, or_iff_right other]
  have font : ∀ name ∈ theme.font.declarations.keys,
      name ∉ (theme.compile config).palette.references.keys := by
    intro name member there
    rcases mem_keys_references_palette.mp there with there | there
    · exact tokens_disjoint_font (mem_keys_of_mem_references there) theme.font member
    · exact tokens_disjoint_font (mem_keys_of_mem_references there) theme.font member
  rw [Stylesheet.declarationLines_rootBlock text ?_, entries_values_palette, List.map_append,
    List.map_append, map_entryLine_resolved palette, map_entryLine_resolved common,
    map_entryLine_font theme.font font]
  · simp [FontMetrics.filter_fontLines]
  · intro titled member
    simp only [List.mem_cons, List.not_mem_nil, or_false] at member
    rcases member with rfl | rfl | rfl
    · exact ⟨(by decide : Text.OneLine "palette"), whole.sectionLines .palette⟩
    · exact ⟨(by decide : Text.OneLine "common"), whole.sectionLines .common⟩
    · exact ⟨(by decide : Text.OneLine "font"), theme.font.oneLine_fontLines⟩

theorem OneLine.declarationLines_components (whole : theme.OneLine config) :
    (theme.compile config).components.declarationLines =
      (theme.compile config).components.values.entries.map
        (theme.compile config).components.entryLine := by
  have text : (theme.compile config).components.text =
      Stylesheet.rootBlock ([("components", theme.sectionLines .component config)].flatMap
        fun titled => [Stylesheet.banner titled.1, ofLines titled.2]) := by
    have single : (theme.compile config).components.text =
        Stylesheet.rootBlock [Stylesheet.banner "components",
          (theme.resolved .component config).text] := rfl
    rw [single, text_resolved]
    rfl
  have values : (theme.compile config).components.values =
      (theme.resolved .component config).values := rfl
  rw [Stylesheet.declarationLines_rootBlock text ?_, values,
    map_entryLine_resolved fun name _ => Iff.rfl]
  · simp
  · intro titled member
    rw [List.mem_singleton.mp member]
    exact ⟨(by decide : Text.OneLine "components"), whole.sectionLines .component⟩

theorem contains_name_of_mem_values
    (plain : ∀ kind, ∀ name ∈ (theme.tokens kind config).keys, Text.contains name ": " = false)
    {sheet : Stylesheet} {entry : String × String}
    (member : sheet ∈ [(theme.compile config).palette, (theme.compile config).components])
    (there : entry ∈ sheet.values.entries) : Text.contains entry.1 ": " = false := by
  have key : entry.1 ∈ sheet.values.keys := OrderedMap.mem_keys.mpr ⟨entry.2, there⟩
  rcases List.mem_pair.mp member with rfl | rfl
  · rcases mem_keys_values_palette.mp key with (palette | common) | font
    · exact plain .palette entry.1 palette
    · exact plain .common entry.1 common
    · obtain ⟨metric, _, same⟩ := FontMetrics.mem_keys_declarations.mp font
      rw [same]
      rcases metric with size | size <;> cases size <;> decide
  · have components : (theme.compile config).components.values =
        (theme.resolved .component config).values := rfl
    rw [components, keys_values_resolved] at key
    exact plain .component entry.1 key

/--
The declaration lines of a stylesheet are its value map, entry by entry, with references written
as `var(…)`; a line gives its name back when it is cut at the first colon with a blank behind it,
and the value map is read back from its JSON text.
-/
theorem declarationLines_follow_values (whole : theme.OneLine config)
    (plain : ∀ kind, ∀ name ∈ (theme.tokens kind config).keys, Text.contains name ": " = false)
    {sheet : Stylesheet}
    (member : sheet ∈ [(theme.compile config).palette, (theme.compile config).components]) :
    sheet.declarationLines = sheet.values.entries.map sheet.entryLine ∧
      (∀ entry ∈ sheet.values.entries,
        (split ": " (sheet.entryLine entry)).head? = some entry.1) ∧
      Json.read sheet.valuesText =
        .ok (.object (sheet.values.entries.map fun entry => (entry.1, .string entry.2))) := by
  refine ⟨?_, ?_, Json.read_compact_stringMembers sheet.values.distinct⟩
  · rcases List.mem_pair.mp member with rfl | rfl
    · exact whole.declarationLines_palette
    · exact whole.declarationLines_components
  · intro entry there
    exact head?_split_declarationLine (contains_name_of_mem_values plain member there) _

/-- A theme with a reference in either stylesheet, a quote inside a value and a font size. -/
def ruled : Json :=
  let token := fun value => Json.object [("value", value)]
  .object
    [("palette", .object [("gray", .object [("20", token (.string "#eee"))]),
        ("ink", token (.string "\x7bcabin x theme.cabin x.gray.20\x7d"))]),
      ("border", .object [("base", .array
        [token (.number (.whole 1)), token (.object [("a\"", .null)])])]),
      ("components", .object [("input",
        token (.string "\x7bcabin x theme.cabin x.border.base.0\x7d"))]),
      ("fontSizeM", .string " 15 ")]

/-- The theme of that object. -/
def ruledTheme : Theme where
  name := "light"
  palette := part {} ruled "palette"
  common := .ofList [("border", (groups? {} ruled "border").getD .empty)]
  components := part {} ruled "components"
  font := FontMetrics.ofTheme ruled

/-- The values of its palette stylesheet. -/
def ruledValues : List (String × String) :=
  [("--dm-token-palette-gray-20", "#eee"), ("--dm-token-palette-ink", "--dm-token-palette-gray-20"),
    ("--dm-common-border-base-0", "1px"), ("--dm-common-border-base-1", "\x7b\"a\\\"\":null\x7d"),
    ("--cx-font-size-s-default", "12"), ("--cx-font-size-m-default", "15"),
    ("--cx-font-size-l-default", "16"), ("--cx-font-size-s-default-line-height", "18"),
    ("--cx-font-size-m-default-line-height", "22"), ("--cx-font-size-l-default-line-height", "24")]

/-- Both stylesheets of the theme line by line, and the values of the first one. -/
theorem declarationLines_of_ruled :
    ofJson {} "light" ruled = .ok ruledTheme ∧ ruledTheme.OneLine {} ∧
      (∀ kind, ∀ name ∈ (ruledTheme.tokens kind {}).keys, Text.contains name ": " = false) ∧
      (ruledTheme.compile {}).palette.declarationLines =
        ["--dm-token-palette-gray-20: #eee;",
          "--dm-token-palette-ink: var(--dm-token-palette-gray-20);",
          "--dm-common-border-base-0: 1px;",
          "--dm-common-border-base-1: \x7b\"a\\\"\":null\x7d;",
          "--cx-font-size-s-default: 12;", "--cx-font-size-m-default: 15;",
          "--cx-font-size-l-default: 16;", "--cx-font-size-s-default-line-height: 18;",
          "--cx-font-size-m-default-line-height: 22;",
          "--cx-font-size-l-default-line-height: 24;"] ∧
      (∀ entry ∈ ruledValues,
        (split ": " ((ruledTheme.compile {}).palette.entryLine entry)).head? = some entry.1) ∧
      Json.read (ruledTheme.compile {}).palette.valuesText =
        .ok (.object (ruledValues.map fun entry => (entry.1, .string entry.2))) ∧
      (ruledTheme.compile {}).components.declarationLines =
        ["--dm-component-input: var(--dm-common-border-base-0);"] := by
  have read : ofJson {} "light" ruled = .ok ruledTheme := rfl
  have texts : ∀ text ∈ ruled.texts, Text.OneLine text := by decide +kernel
  have whole : ruledTheme.OneLine {} :=
    .of_ofJson read texts (by decide) (by decide) (by decide)
  have plain : ∀ kind, ∀ name ∈ (ruledTheme.tokens kind {}).keys,
      Text.contains name ": " = false := by
    intro kind
    cases kind <;> decide +kernel
  have values : (ruledTheme.compile {}).palette.values.entries = ruledValues := by decide +kernel
  obtain ⟨lines, names, json⟩ := declarationLines_follow_values whole plain
    (List.mem_pair.mpr (Or.inl rfl))
  obtain ⟨line, _⟩ := declarationLines_follow_values whole plain (List.mem_pair.mpr (Or.inr rfl))
  rw [values] at lines names json
  exact ⟨read, whole, plain, lines.trans (by decide +kernel), names, json,
    line.trans (by decide +kernel)⟩

end Theme
end DesignTokens
