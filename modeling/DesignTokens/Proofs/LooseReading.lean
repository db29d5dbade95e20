import DesignTokens.Proofs.ReferenceNames

/-!
# Strict and loose reading

A text is cut at the occurrences of a pattern, which are found from the left and never overlap.
Loose reading drops all braces, takes out the markers in this way and cuts the rest at its points.
For a marker without braces the strict form says nothing else: in front of its path stand only an
opening brace and one marker, which is the first one, and the path has no further one.
-/

namespace DesignTokens

namespace Text

/-! ## Cuts -/

/-- A text in gaps between the occurrences of a pattern, found from the left without overlap. -/
inductive Cuts (pattern : List Char) : List Char → List (List Char) → Prop where
  /-- A text without the pattern is one gap. -/
  | whole {gap : List Char} (absent : occurs pattern gap = false) : Cuts pattern gap [gap]
  /-- The pattern behind the first gap is its first occurrence: none starts inside the gap. -/
  | behind {gap text : List Char} {gaps : List (List Char)}
      (first : occurs pattern (gap ++ pattern.dropLast) = false) (rest : Cuts pattern text gaps) :
      Cuts pattern (gap ++ (pattern ++ text)) (gap :: gaps)

variable {pattern text : List Char}

theorem after?_append_of_eq_some {rest : List Char} (starts : after? pattern text = some rest)
    (more : List Char) : after? pattern (text ++ more) = some (rest ++ more) := by
  rw [after?_eq_some_iff] at starts ⊢
  rw [starts, List.append_assoc]

/-- A pattern that stands in a text has a first occurrence there. -/
theorem exists_first_occurrence (nonempty : pattern ≠ []) (held : occurs pattern text = true) :
    ∃ gap back, text = gap ++ (pattern ++ back) ∧
      occurs pattern (gap ++ pattern.dropLast) = false := by
  induction text with
  | nil => exact absurd (List.isEmpty_iff.mp held) nonempty
  | cons c text ih =>
      cases starts : after? pattern (c :: text) with
      | some rest =>
          have filled := List.length_pos_iff.mpr nonempty
          have short : pattern.dropLast.length < pattern.length := by
            rw [List.length_dropLast]
            omega
          have begins : c :: text = pattern ++ rest := after?_eq_some_iff.mp starts
          exact ⟨[], rest, begins, occurs_of_length_lt short⟩
      | none =>
          rw [occurs, starts, Option.isSome_none, Bool.false_or] at held
          obtain ⟨gap, back, rfl, first⟩ := ih held
          refine ⟨c :: gap, back, rfl, ?_⟩
          have longer : c :: (gap ++ (pattern ++ back)) =
              c :: (gap ++ pattern.dropLast) ++ pattern.getLast nonempty :: back := by
            rw [List.append_cons, List.cons_append, List.append_assoc gap,
              List.dropLast_concat_getLast, List.cons_append, List.append_assoc]
          -- An occurrence at the start would already be one in the whole text.
          have here : after? pattern (c :: (gap ++ pattern.dropLast)) = none := by
            refine Option.eq_none_iff_forall_ne_some.mpr fun rest begins => ?_
            rw [longer, after?_append_of_eq_some begins] at starts
            exact absurd starts (Option.some_ne_none _)
          rw [List.cons_append, occurs, here, first]
          rfl

theorem piecesFrom_of_cuts (nonempty : pattern ≠ []) {gaps : List (List Char)}
    (cuts : Cuts pattern text gaps) : piecesFrom pattern 0 text = gaps := by
  induction cuts with
  | whole absent => exact piecesFrom_of_absent absent
  | behind first _ ih => rw [piecesFrom_absent_separator nonempty first, ih]

theorem cuts_piecesFrom (nonempty : pattern ≠ []) (text : List Char) :
    Cuts pattern text (piecesFrom pattern 0 text) := by
  cases held : occurs pattern text with
  | false =>
      rw [piecesFrom_of_absent held]
      exact .whole held
  | true =>
      obtain ⟨gap, back, whole, first⟩ := exists_first_occurrence nonempty held
      have shorter : back.length < text.length := by
        have filled := List.length_pos_iff.mpr nonempty
        rw [whole, List.length_append, List.length_append]
        omega
      rw [whole, piecesFrom_absent_separator nonempty first]
      exact .behind first (cuts_piecesFrom nonempty back)
termination_by text.length

/-- The pieces of a text are its only cut. -/
theorem cuts_iff (nonempty : pattern ≠ []) {gaps : List (List Char)} :
    Cuts pattern text gaps ↔ gaps = piecesFrom pattern 0 text :=
  ⟨fun cuts => (piecesFrom_of_cuts nonempty cuts).symm,
    fun same => same ▸ cuts_piecesFrom nonempty text⟩

end Text

namespace Reference

/-! ## Loose reading -/

open Text

variable {marker raw path : String}

theorem toList_lead_ne_nil (marker : String) : (lead marker).toList ≠ [] := by simp [lead]

/-- A text without its braces. -/
def unbraced (raw : String) : List Char := raw.toList.filter fun c => !isBrace c

theorem looseText_eq (marker raw : String) :
    looseText marker raw = String.ofList (erased (lead marker).toList (unbraced raw)) := by
  rw [looseText, erase, String.toList_ofList]
  rfl

theorem unbraced_append (front back : String) :
    unbraced (front ++ back) = unbraced front ++ unbraced back := by
  rw [unbraced, String.toList_append, List.filter_append]
  rfl

theorem unbraced_of_plain {text : String} (plain : text.toList.any isBrace = false) :
    unbraced text = text.toList := by
  refine List.filter_eq_self.mpr fun c member => ?_
  rw [Bool.not_eq_true', ← Bool.not_eq_true]
  exact List.any_eq_false.mp plain c member

theorem any_isBrace_lead (marker : String) :
    (lead marker).toList.any isBrace = marker.toList.any isBrace := by
  have point : ".".toList.any isBrace = false := by decide
  rw [lead, String.toList_append, List.any_append, point, Bool.or_false]

/-- Loose reading finds the path of the strict form behind a marker without braces. -/
theorem looseText_of_strictPath? (plain : marker.toList.any isBrace = false)
    (read : strictPath? marker raw = some path) : looseText marker raw = path := by
  obtain ⟨rfl, _, bare, unmarked⟩ := strictPath?_eq_some_iff.mp read
  have opening : unbraced "\x7b" = [] := by decide
  have closing : unbraced "\x7d" = [] := by decide
  have rest : unbraced ("\x7b" ++ lead marker ++ path ++ "\x7d") =
      (lead marker).toList ++ path.toList := by
    rw [unbraced_append, unbraced_append, unbraced_append, opening, closing,
      unbraced_of_plain ((any_isBrace_lead marker).trans plain), unbraced_of_plain bare,
      List.nil_append, List.append_nil]
  rw [looseText_eq, rest, erased, piecesFrom_separator (toList_lead_ne_nil marker),
    piecesFrom_of_absent unmarked]
  simp

/--
Loose reading: the text without its braces is cut at the markers, and what is left of it at the
points.
-/
def ReadsLoosely (marker raw : String) (reference : Reference) : Prop :=
  ∃ gaps segments, Cuts (lead marker).toList (unbraced raw) gaps ∧
    Cuts ['.'] gaps.flatten segments ∧ reference.segments = segments.map String.ofList

theorem readsLoosely_iff {reference : Reference} :
    ReadsLoosely marker raw reference ↔ reference = ofDotted (looseText marker raw) := by
  have dotted : (ofDotted (looseText marker raw)).segments =
      (piecesFrom ['.'] 0 (piecesFrom (lead marker).toList 0 (unbraced raw)).flatten).map
        String.ofList := by
    have point : ".".toList = ['.'] := rfl
    rw [ofDotted, split_eq (by decide), looseText_eq, point, String.toList_ofList]
    rfl
  unfold ReadsLoosely
  simp only [cuts_iff (toList_lead_ne_nil marker), cuts_iff (List.cons_ne_nil '.' []), exists_eq_left,
    exists_and_left]
  rw [← dotted]
  generalize ofDotted (looseText marker raw) = other
  cases reference
  cases other
  rw [Reference.mk.injEq]

/--
A text that holds a marker without braces is read as a reference, and always as loose reading has
it: the path of the strict form is what loose reading leaves of it.
-/
theorem strict_agrees_with_loose (marked : marker ≠ "")
    (plain : marker.toList.any isBrace = false)
    (held : Text.contains raw (lead marker) = true) :
    (∀ path, strictPath? marker raw = some path → path = looseText marker raw) ∧
      (parse? marker raw).isSome ∧
      ∀ reference, parse? marker raw = some reference ↔ ReadsLoosely marker raw reference := by
  have agree : ∀ path, strictPath? marker raw = some path → path = looseText marker raw :=
    fun path read => (looseText_of_strictPath? plain read).symm
  have read : parse? marker raw = some (ofDotted (looseText marker raw)) := by
    rw [parse?, if_neg (by simp [marked, held])]
    cases strict : strictPath? marker raw with
    | none => rfl
    | some path => rw [agree path strict, Option.getD_some]
  refine ⟨agree, by rw [read]; rfl, fun reference => ?_⟩
  rw [read, readsLoosely_iff, Option.some_inj, eq_comm]

/-- The marker overlaps itself in front of the path, and only its first occurrence counts. -/
theorem strict_agrees_overlapping :
    ("a.a" ≠ "" ∧ "a.a".toList.any isBrace = false ∧
      Text.contains "\x7ba.a.a.b\x7d" (lead "a.a") = true) ∧
    strictPath? "a.a" "\x7ba.a.a.b\x7d" = some "a.b" ∧
      looseText "a.a" "\x7ba.a.a.b\x7d" = "a.b" ∧
      parse? "a.a" "\x7ba.a.a.b\x7d" = some ⟨["a", "b"]⟩ ∧
      ReadsLoosely "a.a" "\x7ba.a.a.b\x7d" ⟨["a", "b"]⟩ := by
  have marked : "a.a" ≠ "" := by decide
  have plain : "a.a".toList.any isBrace = false := by decide
  have held : Text.contains "\x7ba.a.a.b\x7d" (lead "a.a") = true := by decide
  have strict : strictPath? "a.a" "\x7ba.a.a.b\x7d" = some "a.b" := by decide
  have read : parse? "a.a" "\x7ba.a.a.b\x7d" = some ⟨["a", "b"]⟩ := by decide
  obtain ⟨agree, _, reads⟩ := strict_agrees_with_loose marked plain held
  exact ⟨⟨marked, plain, held⟩, strict, (agree _ strict).symm, read, (reads _).mp read⟩

/-- Loose reading takes the braces of a marker away and then finds it no more. -/
example :
    strictPath? "\x7bt\x7d" "\x7b\x7bt\x7d.a\x7d" = some "a" ∧
      looseText "\x7bt\x7d" "\x7b\x7bt\x7d.a\x7d" = "t.a" := by
  decide

end Reference
end DesignTokens
