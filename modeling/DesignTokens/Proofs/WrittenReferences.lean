import DesignTokens.Proofs.ReferenceNames

/-!
# Texts in written form

A text in written form is read strictly, whatever the marker looks like.  Its path is cut at the
points into segments that can be written again, so writing and reading undo each other: the texts
in written form are exactly the ones that references with writable paths are written as.
-/

namespace DesignTokens
namespace Reference

open Text

variable {marker raw path : String}

/-- A path that was cut at its points is joined again. -/
theorem path_ofDotted (path : String) : (ofDotted path).path "." = path :=
  intercalate_split_point path

/-- The segments that are read from the written form can be written. -/
theorem writable_ofDotted (read : strictPath? marker raw = some path) :
    Writable marker (ofDotted path).segments := by
  obtain ⟨_, filled, bare, unmarked⟩ := strictPath?_eq_some_iff.mp read
  have joined : ".".intercalate (ofDotted path).segments = path := path_ofDotted path
  refine ⟨fun segment member c inside => ?_, by rwa [joined], by rwa [joined]⟩
  have pointless : c ≠ '.' := fun same => not_mem_of_mem_split_point member (same ▸ inside)
  have braceless := List.any_eq_false.mp bare c (mem_of_mem_split member inside)
  rw [isBrace, Bool.or_eq_true, decide_eq_true_iff, decide_eq_true_iff, not_or] at braceless
  exact ⟨pointless, braceless⟩

theorem written_ofDotted (read : strictPath? marker raw = some path) :
    written marker (ofDotted path) = raw := by
  rw [written, path_ofDotted, (strictPath?_eq_some_iff.mp read).1]

/-- A text is in written form exactly if it is what the reference read from it is written as. -/
theorem written_iff {reference : Reference} (marked : marker ≠ "") :
    Writable marker reference.segments ∧ written marker reference = raw ↔
      (strictPath? marker raw).isSome ∧ parse? marker raw = some reference := by
  constructor
  · rintro ⟨writable, rfl⟩
    exact ⟨by rw [writable.strictPath?_written]; rfl, writable.parse?_written marked⟩
  · rintro ⟨strict, read⟩
    obtain ⟨path, found⟩ := Option.isSome_iff_exists.mp strict
    rw [parse?_of_strictPath? marked found] at read
    obtain rfl := Option.some.inj read
    exact ⟨writable_ofDotted found, written_ofDotted found⟩

/--
Segments without points and braces are read back from their written form behind any marker, as long
as their dotted path is not empty and has no marker of its own.  A text in written form is read as
a reference with such segments, and is what that reference is written as.
-/
theorem writing_and_reading_undo (marked : marker ≠ "") :
    (∀ segments, Writable marker segments →
      parse? marker (written marker ⟨segments⟩) = some ⟨segments⟩) ∧
    ∀ path, path ≠ "" → path.toList.any isBrace = false → contains path (lead marker) = false →
      ∃ reference, parse? marker ("\x7b" ++ lead marker ++ path ++ "\x7d") = some reference ∧
        Writable marker reference.segments ∧
        written marker reference = "\x7b" ++ lead marker ++ path ++ "\x7d" := by
  refine ⟨fun segments writable => ?_, fun path filled bare unmarked => ?_⟩
  · exact ((written_iff marked).mp ⟨writable, rfl⟩).2
  · have strict := strictPath?_braced filled bare unmarked
    have read := parse?_of_strictPath? marked strict
    exact ⟨ofDotted path, read, (written_iff marked).mpr ⟨by rw [strict]; rfl, read⟩⟩

/-- The marker has braces and ends in a point, and the path starts and ends in one. -/
theorem undo_pointed :
    let marker := "\x7bt\x7d."
    (marker ≠ "" ∧ Writable marker ["", "x", ""] ∧ ".x." ≠ "" ∧
      ".x.".toList.any isBrace = false ∧ contains ".x." (lead marker) = false) ∧
    written marker ⟨["", "x", ""]⟩ = "\x7b\x7bt\x7d...x.\x7d" ∧
      parse? marker "\x7b\x7bt\x7d...x.\x7d" = some ⟨["", "x", ""]⟩ ∧
      ∃ reference, parse? marker "\x7b\x7bt\x7d...x.\x7d" = some reference ∧
        Writable marker reference.segments ∧
        written marker reference = "\x7b\x7bt\x7d...x.\x7d" := by
  intro marker
  have marked : marker ≠ "" := by decide
  have writable : Writable marker ["", "x", ""] := ⟨by simp, by decide, by decide⟩
  have filled : ".x." ≠ "" := by decide
  have bare : ".x.".toList.any isBrace = false := by decide
  have unmarked : contains ".x." (lead marker) = false := by decide
  have spelled : written marker ⟨["", "x", ""]⟩ = "\x7b\x7bt\x7d...x.\x7d" := by decide
  obtain ⟨back, forth⟩ := writing_and_reading_undo marked
  exact ⟨⟨marked, writable, filled, bare, unmarked⟩, spelled, spelled ▸ back _ writable,
    forth ".x." filled bare unmarked⟩

end Reference
end DesignTokens
