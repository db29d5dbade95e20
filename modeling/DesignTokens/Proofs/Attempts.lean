import Mathlib.Data.List.Forall2

/-!
# Attempts one after the other

A chain of attempts succeeds if all of its links do, and fails with the first failure.
-/

namespace DesignTokens

variable {ε α β : Type}

theorem bind_eq_ok_iff {first : Except ε α} {next : α → Except ε β} {value : β} :
    (first >>= next) = .ok value ↔ ∃ middle, first = .ok middle ∧ next middle = .ok value := by
  cases first with
  | error failure => simp [bind, Except.bind]
  | ok middle => simp [bind, Except.bind]

theorem bind_eq_error_iff {first : Except ε α} {next : α → Except ε β} {failure : ε} :
    (first >>= next) = .error failure ↔
      first = .error failure ∨ ∃ middle, first = .ok middle ∧ next middle = .error failure := by
  cases first with
  | error cause => simp [bind, Except.bind]
  | ok middle => simp [bind, Except.bind]

theorem mapError_eq_ok_iff {δ : Type} {told : ε → δ} {attempt : Except ε α} {value : α} :
    attempt.mapError told = .ok value ↔ attempt = .ok value := by
  cases attempt with
  | error failure => simp [Except.mapError]
  | ok result => simp [Except.mapError]

theorem mapError_eq_error_iff {δ : Type} {told : ε → δ} {attempt : Except ε α} {cause : δ} :
    attempt.mapError told = .error cause ↔
      ∃ failure, attempt = .error failure ∧ told failure = cause := by
  cases attempt with
  | error failure => simp [Except.mapError]
  | ok result => simp [Except.mapError]

/-! ## Lists of attempts -/

variable {attempt : α → Except ε β} {items : List α}

theorem forall₂_of_mapM {results : List β} (done : items.mapM attempt = .ok results) :
    List.Forall₂ (fun item result => attempt item = .ok result) items results := by
  induction items generalizing results with
  | nil =>
      rw [List.mapM_nil] at done
      cases done
      exact .nil
  | cons item items ih =>
      rw [List.mapM_cons] at done
      obtain ⟨result, first, done⟩ := bind_eq_ok_iff.mp done
      obtain ⟨rest, later, done⟩ := bind_eq_ok_iff.mp done
      cases done
      exact .cons first (ih later)

theorem exists_ok_of_mapM {results : List β} (done : items.mapM attempt = .ok results) :
    ∀ item ∈ items, ∃ result, attempt item = .ok result :=
  ((List.forall₂_and_left _ _).mp
    ((forall₂_of_mapM done).imp fun _ result same => ⟨⟨result, same⟩, same⟩)).1

/-- A list of attempts stops at its first failure. -/
theorem mapM_of_first_failure {front back : List α} {item : α} {failure : ε}
    (done : ∀ earlier ∈ front, ∃ result, attempt earlier = .ok result)
    (failed : attempt item = .error failure) :
    (front ++ item :: back).mapM attempt = .error failure := by
  induction front with
  | nil =>
      rw [List.nil_append, List.mapM_cons, failed]
      rfl
  | cons earlier front ih =>
      obtain ⟨⟨result, first⟩, others⟩ := List.forall_mem_cons.mp done
      rw [List.cons_append, List.mapM_cons, first, ih others]
      rfl

theorem exists_first_failure_of_mapM {failure : ε} (failed : items.mapM attempt = .error failure) :
    ∃ front item back, items = front ++ item :: back ∧
      (∀ earlier ∈ front, ∃ result, attempt earlier = .ok result) ∧
        attempt item = .error failure := by
  induction items with
  | nil => exact nomatch failed
  | cons item items ih =>
      rw [List.mapM_cons] at failed
      rcases bind_eq_error_iff.mp failed with here | ⟨result, first, later⟩
      · exact ⟨[], item, items, rfl, by simp, here⟩
      · rcases bind_eq_error_iff.mp later with stopped | ⟨_, _, done⟩
        · obtain ⟨front, failing, back, rfl, done, failed⟩ := ih stopped
          exact ⟨item :: front, failing, back, rfl,
            List.forall_mem_cons.mpr ⟨⟨result, first⟩, done⟩, failed⟩
        · exact nomatch done

theorem exists_error_of_mapM {failure : ε} (failed : items.mapM attempt = .error failure) :
    ∃ item ∈ items, attempt item = .error failure := by
  obtain ⟨front, item, back, rfl, _, here⟩ := exists_first_failure_of_mapM failed
  exact ⟨item, by simp, here⟩

end DesignTokens
