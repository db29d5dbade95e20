import DesignTokens.Proofs.LooseReading
import DesignTokens.Proofs.WrittenReferences

/-!
# Markers that deleting joins

Loose reading takes the markers out from the left, once.  What is left of the text on both sides of
one can join to another, which then stays in the path of the reference.  This happens to every
marker but two kinds: a marker with a brace cannot stand in a text without braces, and a marker
that is points only leaves no gap that ends in a point.
-/

namespace DesignTokens

namespace Text

variable {pattern : List Char}

theorem absent_of_absent_append {front back : List Char}
    (absent : occurs pattern (front ++ back) = false) : occurs pattern front = false := by
  rw [← Bool.not_eq_true, occurs_iff] at absent ⊢
  rintro ⟨before, after, rfl⟩
  exact absent ⟨before, after ++ back, by simp⟩

/-- Deleting leaves no whole occurrence behind: the gaps have none. -/
theorem absent_of_mem_cuts {text : List Char} {gaps : List (List Char)}
    (cuts : Cuts pattern text gaps) : ∀ gap ∈ gaps, occurs pattern gap = false := by
  induction cuts with
  | whole absent => exact List.forall_mem_singleton.mpr absent
  | behind first _ ih => exact List.forall_mem_cons.mpr ⟨absent_of_absent_append first, ih⟩

/-- Two texts join to an occurrence only across their border, if the first ends in the pattern. -/
theorem occurs_append_of_ends_apart {front back : List Char}
    (apart : ∀ init last, front = init ++ [last] → last ∉ pattern)
    (held : occurs pattern (front ++ back) = true) :
    occurs pattern front = true ∨ occurs pattern back = true := by
  simp only [occurs_iff] at held ⊢
  obtain ⟨before, after, whole⟩ := held
  rcases List.append_eq_append_iff.mp whole with ⟨left, ends, rfl⟩ | ⟨right, rfl, _⟩
  · rcases List.append_eq_append_iff.mp ends with ⟨across, rfl, rfl⟩ | ⟨between, _, rfl⟩
    · rcases List.eq_nil_or_concat across with rfl | ⟨init, last, rfl⟩
      · exact Or.inr ⟨[], after, by simp⟩
      · have outside := apart (before ++ init) last (by simp)
        exact absurd (by simp) outside
    · exact Or.inr ⟨between, after, rfl⟩
  · exact Or.inl ⟨before, right, rfl⟩

/-- No gap ends in the character of a run, so the gaps between runs join to no run. -/
theorem absent_flatten_of_run {mark : Char} {count : Nat} {text : List Char}
    {gaps : List (List Char)} (cuts : Cuts (List.replicate (count + 1) mark) text gaps) :
    occurs (List.replicate (count + 1) mark) gaps.flatten = false := by
  induction cuts with
  | whole absent => simpa using absent
  | @behind gap text gaps first _ ih =>
      have apart : ∀ init last, gap = init ++ [last] → last ∉ List.replicate (count + 1) mark := by
        rintro init last rfl member
        obtain rfl : last = mark := List.eq_of_mem_replicate member
        rw [List.dropLast_replicate, Nat.add_sub_cancel, List.append_assoc, List.singleton_append,
          ← List.replicate_succ, ← Bool.not_eq_true, occurs_iff] at first
        exact first ⟨init, [], (List.append_nil _).symm⟩
      rw [List.flatten_cons, ← Bool.not_eq_true]
      intro held
      rcases occurs_append_of_ends_apart apart held with here | later
      · rw [absent_of_absent_append first] at here
        exact Bool.false_ne_true here
      · rw [ih] at later
        exact Bool.false_ne_true later

/-- A text that is the same when its last character is put in front is a run of that character. -/
theorem eq_last_of_cons_eq_concat {first last : Char} {text : List Char}
    (same : first :: text = text ++ [last]) : ∀ c ∈ first :: text, c = last := by
  induction text generalizing first with
  | nil => simpa using same
  | cons next text ih =>
      obtain ⟨rfl, tail⟩ := List.cons.inj same
      exact List.forall_mem_cons.mpr ⟨ih tail first List.mem_cons_self, ih tail⟩

/-- A pattern that is no run joins to itself when it is deleted behind its own first character. -/
theorem erased_nested {first last : Char} {text : List Char}
    (varied : ∃ c ∈ first :: text, c ≠ last) :
    erased (first :: (text ++ [last])) (first :: (first :: (text ++ [last]) ++ (text ++ [last]))) =
      first :: (text ++ [last]) := by
  have absent : occurs (first :: (text ++ [last]))
      ([first] ++ (first :: (text ++ [last])).dropLast) = false := by
    rw [← Bool.not_eq_true, occurs_iff]
    rintro ⟨before, after, whole⟩
    have lengths := congrArg List.length whole
    simp only [List.length_append, List.length_cons, List.length_nil,
      List.length_dropLast] at lengths
    obtain rfl : before = [] := List.length_eq_zero_iff.mp (by omega)
    obtain rfl : after = [] := List.length_eq_zero_iff.mp (by omega)
    rw [← List.cons_append, List.dropLast_concat, List.nil_append, List.append_nil,
      List.singleton_append] at whole
    obtain ⟨c, member, differ⟩ := varied
    exact differ (eq_last_of_cons_eq_concat whole c (List.mem_cons_of_mem first member))
  have rest : piecesFrom (first :: (text ++ [last])) 0 (text ++ [last]) = [text ++ [last]] :=
    piecesFrom_of_absent (occurs_of_length_lt (Nat.lt_succ_self _))
  have cut := piecesFrom_absent_separator (List.cons_ne_nil _ _) absent (text ++ [last])
  rw [List.singleton_append, rest] at cut
  rw [erased, cut]
  simp

end Text

namespace Reference

open Text

variable {marker raw : String} {reference : Reference}

/--
A text is not in written form, and the gaps between its markers, none of which has a marker itself,
join to one.
-/
def JoinsMarker (marker raw : String) : Prop :=
  strictPath? marker raw = none ∧
    ∃ gaps, Cuts (lead marker).toList (unbraced raw) gaps ∧
      (∀ gap ∈ gaps, occurs (lead marker).toList gap = false) ∧
      occurs (lead marker).toList gaps.flatten = true

theorem joinsMarker_iff :
    JoinsMarker marker raw ↔ strictPath? marker raw = none ∧
      occurs (lead marker).toList (erased (lead marker).toList (unbraced raw)) = true := by
  have cuts := cuts_piecesFrom (toList_lead_ne_nil marker) (unbraced raw)
  refine and_congr_right fun _ => ⟨?_, fun held => ⟨_, cuts, absent_of_mem_cuts cuts, held⟩⟩
  rintro ⟨gaps, other, _, held⟩
  rwa [erased, piecesFrom_of_cuts (toList_lead_ne_nil marker) other]

theorem eq_ofDotted_of_parse? (read : parse? marker raw = some reference) :
    reference = ofDotted ((strictPath? marker raw).getD (looseText marker raw)) := by
  rw [parse?] at read
  split at read
  · simp at read
  · exact (Option.some.inj read).symm

/-- A marker is left in the path of a reference exactly if it was joined. -/
theorem contains_path_iff (read : parse? marker raw = some reference) :
    contains (reference.path ".") (lead marker) = true ↔ JoinsMarker marker raw := by
  rw [eq_ofDotted_of_parse? read, path_ofDotted, joinsMarker_iff]
  cases strict : strictPath? marker raw with
  | some path =>
      have unmarked := (strictPath?_eq_some_iff.mp strict).2.2.2
      simp [unmarked]
  | none =>
      rw [Option.getD_none, looseText_eq, contains, String.toList_ofList]
      exact (and_iff_right rfl).symm

/-- A marker that cannot be joined: one with a brace, or one of points only. -/
def Unjoinable (marker : String) : Prop :=
  marker.toList.any isBrace = true ∨ ∀ c ∈ marker.toList, c = '.'

instance (marker : String) : Decidable (Unjoinable marker) :=
  @instDecidableOr _ _ inferInstance (List.decidableBAll (· = '.') marker.toList)

theorem not_joinsMarker (unjoinable : Unjoinable marker) : ¬ JoinsMarker marker raw := by
  rintro ⟨_, gaps, cuts, _, held⟩
  rcases unjoinable with braced | points
  · obtain ⟨c, member, brace⟩ := List.any_eq_true.mp braced
    obtain ⟨before, after, whole⟩ := occurs_iff.mp held
    have inside : c ∈ gaps.flatten := by
      rw [whole, lead, String.toList_append]
      simp [member]
    rw [(cuts_iff (toList_lead_ne_nil marker)).mp cuts] at inside
    obtain ⟨gap, cut, there⟩ := List.mem_flatten.mp inside
    have kept := (List.mem_filter.mp (mem_of_mem_piecesFrom cut there)).2
    rw [brace] at kept
    exact Bool.false_ne_true kept
  · have run : (lead marker).toList = List.replicate (marker.toList.length + 1) '.' := by
      rw [lead, String.toList_append, List.eq_replicate_of_mem points, List.length_replicate,
        List.replicate_succ']
      rfl
    rw [run] at cuts held
    rw [absent_flatten_of_run cuts] at held
    exact Bool.false_ne_true held

theorem strictPath?_of_bare (marker : String) (bare : raw.toList.any isBrace = false) :
    strictPath? marker raw = none := by
  refine Option.eq_none_iff_forall_ne_some.mpr fun path strict => ?_
  rw [(strictPath?_eq_some_iff.mp strict).1] at bare
  simp [isBrace] at bare

/-- Every other marker is joined in a text that has it inside another one. -/
theorem exists_joinsMarker (joinable : ¬ Unjoinable marker) :
    ∃ raw reference, parse? marker raw = some reference ∧ JoinsMarker marker raw := by
  rw [Unjoinable, not_or, Bool.not_eq_true] at joinable
  obtain ⟨plain, varied⟩ := joinable
  rw [not_forall₂] at varied
  have marked : marker ≠ "" := by
    rintro rfl
    simp at varied
  obtain ⟨first, text, spelled⟩ := List.exists_cons_of_ne_nil
    (show marker.toList ≠ [] by simpa using marked)
  have whole : (lead marker).toList = first :: (text ++ ['.']) := by
    rw [lead, String.toList_append, spelled]
    rfl
  let raw := String.ofList (first :: ((lead marker).toList ++ (text ++ ['.'])))
  have chars : raw.toList = first :: ((lead marker).toList ++ (text ++ ['.'])) :=
    String.toList_ofList
  have held : contains raw (lead marker) = true := by
    rw [contains, occurs_iff]
    exact ⟨[first], text ++ ['.'], by rw [chars]; simp⟩
  have bare : raw.toList.any isBrace = false := by
    have pattern := (any_isBrace_lead marker).trans plain
    rw [whole, List.any_cons, Bool.or_eq_false_iff] at pattern
    rw [chars, whole, List.any_cons, List.any_append, List.any_cons, pattern.1, pattern.2]
    rfl
  have joined : erased (lead marker).toList (unbraced raw) = (lead marker).toList := by
    rw [unbraced_of_plain bare, chars, whole]
    exact erased_nested (by simpa [spelled] using varied)
  have loose := strictPath?_of_bare marker bare
  refine ⟨raw, ofDotted (looseText marker raw), ?_, joinsMarker_iff.mpr ⟨loose, ?_⟩⟩
  · rw [parse?, if_neg (by simp [marked, held]), loose, Option.getD_none]
  · rw [joined, occurs_iff]
    exact ⟨[], [], by simp⟩

/--
Whatever a text looks like, its reference has a marker in its path exactly if the gaps between the
markers of the text join to one.  No text does that to a marker exactly if it has a brace or is
points only.
-/
theorem no_marker_survives_iff (marker : String) :
    (∀ raw reference, parse? marker raw = some reference →
      (contains (reference.path ".") (lead marker) = true ↔ JoinsMarker marker raw)) ∧
    ((∀ raw reference, parse? marker raw = some reference →
      contains (reference.path ".") (lead marker) = false) ↔ Unjoinable marker) := by
  refine ⟨fun raw reference read => contains_path_iff read, fun clean => ?_,
    fun unjoinable raw reference read => ?_⟩
  · refine Decidable.by_contra fun joinable => ?_
    obtain ⟨raw, reference, read, joins⟩ := exists_joinsMarker joinable
    have held := (contains_path_iff read).mpr joins
    rw [clean raw reference read] at held
    exact Bool.false_ne_true held
  · rw [← Bool.not_eq_true, contains_path_iff read]
    exact not_joinsMarker unjoinable

/-- The default marker is left in the path, if it stands inside another one with its braces. -/
theorem marker_survives_nested :
    let marker := ({} : Config).marker
    let raw := "\x7bcabin x theme\x7bcabin x theme.cabin x.\x7d.cabin x.palette.gray.20\x7d"
    marker ≠ "" ∧
      parse? marker raw =
        some ⟨["cabin x theme", "cabin x", "palette", "gray", "20"]⟩ ∧
      contains "cabin x theme.cabin x.palette.gray.20" (lead marker) = true ∧
      JoinsMarker marker raw ∧ ¬ Unjoinable marker := by
  intro marker raw
  have read : parse? marker raw =
      some ⟨["cabin x theme", "cabin x", "palette", "gray", "20"]⟩ := by decide +kernel
  have held : contains "cabin x theme.cabin x.palette.gray.20" (lead marker) = true := by
    decide +kernel
  obtain ⟨joins, clean⟩ := no_marker_survives_iff marker
  refine ⟨by decide, read, held, (joins raw _ read).mp held, fun unjoinable => ?_⟩
  exact absurd (clean.mpr unjoinable raw _ read) (by decide +kernel)

end Reference
end DesignTokens
