import Laminar.Kind
import Laminar.Proofs.Text

/-!
# Kinds and their codes

The code of a kind names the kind again if the width is one that has a letter of its own, or if
the code names nothing else (`ofCode_code`). These are the kinds that codes name: a code without
white space names no other kind (`canonical_ofCode`).
-/

namespace Laminar.Kind

open Text (isBlank Word)

/-- The width is one of those that codes can name. -/
def Canonical : Kind → Prop
  | .integer width _ _ => width = 1 ∨ width = 2 ∨ width = 4 ∨ width = 8
  | .verbatim code =>
    code ≠ "" ∧ (∀ c ∈ code.toList, isBlank c = false) ∧ ofCode code = .verbatim code
  | _ => True

/-- Whether a kind is canonical can be computed. -/
instance (kind : Kind) : Decidable kind.Canonical :=
  match kind with
  | .integer _ _ _ => inferInstanceAs (Decidable (_ ∨ _))
  | .verbatim code =>
    have : Decidable (∀ c ∈ code.toList, isBlank c = false) := List.decidableBAll _ _
    inferInstanceAs (Decidable (_ ∧ _ ∧ _))
  | .raw | .nothing | .fragment => inferInstanceAs (Decidable True)

/-- The letter of a width that codes can name stands for it. -/
theorem integer?_letter {width : UInt8} (named : width = 1 ∨ width = 2 ∨ width = 4 ∨ width = 8)
    (signed : Bool) : integer? (letter width signed) = some (width, signed) := by
  obtain rfl | rfl | rfl | rfl := named <;> cases signed <;> rfl

/-- A letter stands for one of four widths. -/
theorem width_of_integer? {c : Char} {width : UInt8} {signed : Bool}
    (found : integer? c = some (width, signed)) :
    width = 1 ∨ width = 2 ∨ width = 4 ∨ width = 8 := by
  unfold integer? at found
  split at found <;> simp_all

/-- A code of two characters names an integer of one of four widths. -/
theorem canonical_integerOfCode? {code : List Char} {kind : Kind}
    (found : integerOfCode? code = some kind) : kind.Canonical := by
  unfold integerOfCode? at found
  split at found
  · next sigil letter =>
    simp only [Option.bind_eq_bind, Option.bind_eq_some_iff, Prod.exists, Option.pure_def,
      Option.some.injEq] at found
    obtain ⟨_, -, width, signed, named, rfl⟩ := found
    exact width_of_integer? named
  · contradiction

/-- A code that names an integer names no other kind. -/
theorem ofCode_of_integer {code : String} {kind : Kind}
    (found : integerOfCode? code.toList = some kind) : ofCode code = kind := by
  have other (word : String) (none : integerOfCode? word.toList = none) : code ≠ word := by
    rintro rfl
    rw [none] at found
    contradiction
  rw [ofCode, if_neg (other "raw" rfl), if_neg (other "none" rfl), if_neg (other "fragment" rfl),
    found, Option.getD_some]

/-- The code of a kind names the kind again. -/
theorem ofCode_code {kind : Kind} (canonical : kind.Canonical) : ofCode kind.code = kind := by
  cases kind with
  | integer width signed order =>
    refine ofCode_of_integer ?_
    rw [code, String.toList_ofList, integerOfCode?, order?_sigil, Option.bind_eq_bind,
      Option.bind_some, integer?_letter canonical]
    rfl
  | raw => rfl
  | nothing => rfl
  | fragment => rfl
  | verbatim code => exact canonical.2.2

/-- The code of a kind is a word. -/
theorem word_code {kind : Kind} (canonical : kind.Canonical) :
    Word (! isBlank ·) kind.code.toList := by
  cases kind with
  | integer width signed order =>
    rw [code, String.toList_ofList]
    refine ⟨List.cons_ne_nil _ _, List.forall_mem_cons.mpr ⟨?_, List.forall_mem_singleton.mpr ?_⟩⟩
    · cases order <;> decide
    · obtain rfl | rfl | rfl | rfl := canonical <;> cases signed <;> decide
  | raw => decide
  | nothing => decide
  | fragment => decide
  | verbatim code =>
    obtain ⟨some, bare, -⟩ := canonical
    refine ⟨fun none => some (String.toList_eq_nil_iff.mp none), fun c present => ?_⟩
    rw [bare c present, Bool.not_false]

/-- The kind that a word names is written with a code that names it. -/
theorem canonical_ofCode {code : String} (word : Word (! isBlank ·) code.toList) :
    (ofCode code).Canonical := by
  by_cases fixed : code = "raw" ∨ code = "none" ∨ code = "fragment"
  · obtain rfl | rfl | rfl := fixed <;> exact trivial
  · -- Any other code names an integer, or itself.
    have named : ofCode code = (integerOfCode? code.toList).getD (.verbatim code) := by
      simp only [not_or] at fixed
      rw [ofCode, if_neg fixed.1, if_neg fixed.2.1, if_neg fixed.2.2]
    cases found : integerOfCode? code.toList with
    | some kind =>
      rw [named, found, Option.getD_some]
      exact canonical_integerOfCode? found
    | none =>
      rw [found, Option.getD_none] at named
      rw [named]
      refine ⟨fun none => word.some (String.toList_eq_nil_iff.mpr none), fun c present => ?_, named⟩
      have shown := word.all c present
      rwa [Bool.not_eq_true'] at shown

end Laminar.Kind
