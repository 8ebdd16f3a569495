import Mathlib.Logic.Basic

/-!
# Outcomes

When a computation that may fail succeeds: all of its steps do. When it fails: one of its steps
does, and those before it succeed.
-/

namespace Laminar

variable {ε δ α β : Type}

/-- Two steps succeed if the first does and then the second. -/
theorem bind_eq_ok_iff {first : Except ε α} {second : α → Except ε β} {result : β} :
    first >>= second = .ok result ↔ ∃ middle, first = .ok middle ∧ second middle = .ok result := by
  cases first <;> simp [bind, Except.bind]

/-- Two steps fail if the first does, or if it succeeds and the second fails. -/
theorem bind_eq_error_iff {first : Except ε α} {second : α → Except ε β} {error : ε} :
    first >>= second = .error error ↔
      first = .error error ∨ ∃ middle, first = .ok middle ∧ second middle = .error error := by
  cases first <;> simp [bind, Except.bind]

/-- What does not fail succeeds. -/
theorem exists_eq_ok_iff {outcome : Except ε α} :
    (∃ result, outcome = .ok result) ↔ ∀ error, outcome ≠ .error error := by
  cases outcome <;> simp

/-- The wording of errors does not decide success. -/
theorem mapError_eq_ok_iff {change : ε → δ} {outcome : Except ε α} {result : α} :
    outcome.mapError change = .ok result ↔ outcome = .ok result := by
  cases outcome with
  | error error => exact iff_of_false nofun nofun
  | ok found =>
    exact ⟨fun same => congrArg Except.ok (Except.ok.inj same),
      fun same => congrArg Except.ok (Except.ok.inj same)⟩

/-- The wording of errors does not decide failure. -/
theorem mapError_eq_error_iff {change : ε → δ} {outcome : Except ε α} {error : δ} :
    outcome.mapError change = .error error ↔
      ∃ found, outcome = .error found ∧ change found = error := by
  cases outcome with
  | error found =>
    constructor
    · intro same
      exact ⟨found, rfl, Except.error.inj same⟩
    · rintro ⟨_, ⟨⟩, rfl⟩
      rfl
  | ok found => exact iff_of_false nofun (by rintro ⟨_, ⟨⟩, _⟩)

/-- A change of the result does not decide success. -/
theorem map_eq_ok_iff {change : α → β} {outcome : Except ε α} {result : β} :
    outcome.map change = .ok result ↔ ∃ found, outcome = .ok found ∧ change found = result := by
  cases outcome <;> simp [Except.map]

end Laminar
