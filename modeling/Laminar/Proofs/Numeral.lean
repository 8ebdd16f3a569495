import Mathlib.Data.Nat.Digits.Defs
import Laminar.Numeral
import Laminar.Proofs.Outcome

/-!
# Numerals read back

The digits of a number are read back as the number, as long as it fits in 64 bits
(`read_digits`). Reading goes on after a part of the digits with the value of that part
(`extend_append`), and this is how the digits are made, so the proof follows the division. A text is
read if and only if it is a row of digits and what it stands for fits (`read_eq_ok_iff`).
-/

namespace Laminar.Numeral

/-- The character of a digit has the digit as its value. -/
theorem digitValue?_upperDigit {d : Nat} (small : d < 36) :
    digitValue? (upperDigit d) = some d := by
  have all : ∀ d < 36, digitValue? (upperDigit d) = some d := by decide
  exact all d small

/-- The character of a digit is a digit of every larger base. -/
theorem digit?_upperDigit {base d : Nat} (small : d < base) (bounded : base ≤ 36) :
    digit? base (upperDigit d) = some d := by
  rw [digit?, digitValue?_upperDigit (by omega), Option.filter_some, if_pos (decide_eq_true small)]

/-- Every digit is less than the base. -/
theorem lt_of_mem_digits {base n : Nat} (proper : 2 ≤ base) : ∀ d ∈ digits base n, d < base := by
  fun_induction digits base n with
  | case1 n small =>
    rw [List.forall_mem_singleton]
    omega
  | case2 n large inner =>
    simp only [List.forall_mem_append, List.forall_mem_singleton]
    exact ⟨inner, Nat.mod_lt _ (by omega)⟩

/-- Every number has a digit. -/
theorem digits_ne_nil (base n : Nat) : digits base n ≠ [] := by
  unfold digits
  split <;> simp

/-- Reading goes on with the value of what was read. -/
theorem extend_append (base value : Nat) (front back : List Char) :
    extend base value (front ++ back) = (extend base value front).bind fun middle =>
      extend base middle back := by
  induction front generalizing value with
  | nil => rfl
  | cons c rest later =>
    simp only [List.cons_append, extend]
    cases digit? base c with
    | none => rfl
    | some d =>
      simp only
      split
      · exact later _
      · rfl

/-- One more digit is read if the number still fits. -/
theorem extend_digit {base value d : Nat} (small : d < base) (bounded : base ≤ 36)
    (fits : value * base + d < wordLimit) :
    extend base value [upperDigit d] = .ok (value * base + d) := by
  rw [extend, digit?_upperDigit small bounded]
  simp only [if_pos fits, extend]

/-- The digits of a number that fits in 64 bits are read as the number. All digits but the last are
those of the quotient, which fits as well. -/
theorem extend_digits {base n : Nat} (proper : 2 ≤ base) (bounded : base ≤ 36)
    (fits : n < wordLimit) : extend base 0 ((digits base n).map upperDigit) = .ok n := by
  fun_induction digits base n with
  | case1 n small =>
    have digit : extend base 0 [upperDigit n] = .ok (0 * base + n) :=
      extend_digit (by omega) bounded (by omega)
    simpa using digit
  | case2 n large inner =>
    have whole : n / base * base + n % base = n := Nat.div_add_mod' n base
    have front := inner (Nat.lt_of_le_of_lt (Nat.div_le_self n base) fits)
    rw [List.map_append, List.map_singleton, extend_append, front]
    change extend base (n / base) [upperDigit (n % base)] = .ok n
    rw [extend_digit (Nat.mod_lt _ (by omega)) bounded (by omega), whole]

/-- A text that is not empty and begins with no sign is read digit by digit. -/
theorem readNat_eq_extend {base : Nat} {text : List Char} (some : text ≠ [])
    (unsigned : text.head? ≠ Option.some '+') : readNat base text = extend base 0 text := by
  cases text with
  | nil => exact absurd rfl some
  | cons c rest =>
    have different : c ≠ '+' := by simpa using unsigned
    unfold readNat
    split
    · contradiction
    · simp_all
    · simp_all
    · rfl

/-- A number that fits in 64 bits is read back from its digits. -/
theorem read_digits {base n : Nat} (proper : 2 ≤ base) (bounded : base ≤ 36)
    (fits : n < wordLimit) : read base ((digits base n).map upperDigit) = .ok n.toUInt64 := by
  have some : (digits base n).map upperDigit ≠ [] := by simpa using digits_ne_nil base n
  have unsigned : ((digits base n).map upperDigit).head? ≠ Option.some '+' := by
    intro sign
    obtain ⟨d, present, plus⟩ := List.mem_map.mp (List.mem_of_head? sign)
    have small := lt_of_mem_digits proper d present
    have value := digitValue?_upperDigit (Nat.lt_of_lt_of_le small bounded)
    have no_value : digitValue? '+' = none := by decide
    rw [plus, no_value] at value
    contradiction
  rw [read, readNat_eq_extend some unsigned, extend_digits proper bounded fits]
  rfl

/-- A mark is left out if there is one. -/
theorem withoutHexMark?_eq_some_iff {text rest : List Char} :
    withoutHexMark? text = some rest ↔
      text = ['0', 'x'] ++ rest ∨ text = ['0', 'X'] ++ rest := by
  unfold withoutHexMark?
  split <;> simp_all

/-! ## Values -/

/-- A character is a digit of the base. -/
def isDigit (base : Nat) (c : Char) : Bool :=
  (digit? base c).isSome

/-- The number that a row of digits stands for. -/
def denoted (base : Nat) (text : List Char) : Nat :=
  Nat.ofDigits base (text.reverse.map fun c => (digit? base c).getD 0)

/-- No digits denote zero. -/
theorem denoted_nil (base : Nat) : denoted base [] = 0 :=
  rfl

/-- The first digit counts most. -/
theorem denoted_cons {base d : Nat} {c : Char} (digit : digit? base c = some d) (rest : List Char) :
    denoted base (c :: rest) = d * base ^ rest.length + denoted base rest := by
  rw [denoted, List.reverse_cons, List.map_append, Nat.ofDigits_append, List.map_singleton, digit,
    Option.getD_some, Nat.ofDigits_singleton, List.length_map, List.length_reverse, Nat.mul_comm,
    Nat.add_comm, denoted]

/-- A number that starts as a value is read on if only digits follow and the whole still fits. Once
what is read no longer fits, what is still to come makes it no smaller. -/
theorem extend_eq_ok_iff {base value n : Nat} (proper : 0 < base) (fits : value < wordLimit)
    (text : List Char) :
    extend base value text = .ok n ↔
      (∀ c ∈ text, isDigit base c = true) ∧
        n = value * base ^ text.length + denoted base text ∧ n < wordLimit := by
  induction text generalizing value with
  | nil =>
    rw [extend, denoted_nil, List.length_nil, Nat.pow_zero, Nat.mul_one, Nat.add_zero,
      Except.ok.injEq]
    constructor
    · rintro rfl
      exact ⟨List.forall_mem_nil _, rfl, fits⟩
    · rintro ⟨-, rfl, -⟩
      rfl
  | cons c rest later =>
    rw [extend, List.forall_mem_cons]
    cases digit : digit? base c with
    | none => simp [isDigit, digit]
    | some d =>
      have here : isDigit base c = true := by rw [isDigit, digit, Option.isSome_some]
      have whole : value * base ^ (rest.length + 1) + (d * base ^ rest.length + denoted base rest) =
          (value * base + d) * base ^ rest.length + denoted base rest := by ring
      rw [List.length_cons, denoted_cons digit, whole, and_iff_right here]
      show (if value * base + d < wordLimit then _ else _) = _ ↔ _
      split
      · next small => exact later small
      · next large =>
        have grows : value * base + d ≤ (value * base + d) * base ^ rest.length :=
          Nat.le_mul_of_pos_right _ (Nat.pow_pos proper)
        refine iff_of_false nofun ?_
        rintro ⟨-, rfl, bounded⟩
        omega

/-- What is read from the beginning is a row of digits that stands for a 64-bit number. -/
theorem map_extend_eq_ok_iff {base : Nat} {text : List Char} {word : UInt64} (proper : 0 < base) :
    (extend base 0 text).map Nat.toUInt64 = .ok word ↔
      (∀ c ∈ text, isDigit base c = true) ∧ denoted base text = word.toNat := by
  have start : (0 : Nat) < wordLimit := by decide
  rw [map_eq_ok_iff]
  simp only [extend_eq_ok_iff proper start, Nat.zero_mul, Nat.zero_add]
  constructor
  · rintro ⟨n, ⟨digits, value, small⟩, rfl⟩
    have kept : n.toUInt64.toNat = n := UInt64.toNat_ofNat_of_lt' small
    exact ⟨digits, value.symm.trans kept.symm⟩
  · rintro ⟨digits, value⟩
    exact ⟨word.toNat, ⟨digits, value.symm, word.toNat_lt⟩, UInt64.ofNat_toNat⟩

/-- A text without a sign is read if it is a row of digits, at least one, and what it stands for
fits. -/
theorem read_eq_ok_iff {base : Nat} {text : List Char} {word : UInt64} (proper : 0 < base)
    (unsigned : text.head? ≠ some '+') :
    read base text = .ok word ↔
      (text ≠ [] ∧ ∀ c ∈ text, isDigit base c = true) ∧ denoted base text = word.toNat := by
  by_cases empty : text = []
  · subst empty
    simp [read, readNat, Except.map]
  · rw [read, readNat_eq_extend empty unsigned, map_extend_eq_ok_iff proper, and_iff_right empty]

/-- A row of digits is refused for its size only. -/
theorem eq_tooLarge_of_extend {base value : Nat} {text : List Char} {fault : Fault}
    (digits : ∀ c ∈ text, isDigit base c = true) (refused : extend base value text = .error fault) :
    fault = .tooLarge := by
  induction text generalizing value with
  | nil => contradiction
  | cons c rest later =>
    obtain ⟨here, others⟩ := List.forall_mem_cons.mp digits
    obtain ⟨d, digit⟩ := Option.isSome_iff_exists.mp here
    rw [extend, digit] at refused
    change (if value * base + d < wordLimit then _ else _) = _ at refused
    split at refused
    · exact later others refused
    · exact (Except.error.inj refused).symm

/-! ## Numerals with a sign -/

/-- What is left of a text without a plus sign, or the text if it has none. -/
def unsigned : List Char → List Char
  | '+' :: rest => rest
  | text => text

/-- A text that does not begin with a plus sign has none to take away. -/
theorem unsigned_of_head {text : List Char} (head : text.head? ≠ some '+') :
    unsigned text = text := by
  unfold unsigned
  split
  · exact absurd rfl head
  · rfl

/-- What follows the sign is read digit by digit. -/
theorem readNat_eq_extend_unsigned {base : Nat} {text : List Char} (some : unsigned text ≠ []) :
    readNat base text = extend base 0 (unsigned text) := by
  by_cases sign : text.head? = Option.some '+'
  · obtain ⟨rest, rfl⟩ := List.head?_eq_some_iff.mp sign
    obtain ⟨c, rest, rfl⟩ := List.exists_cons_of_ne_nil some
    rfl
  · rw [unsigned_of_head sign] at some ⊢
    exact readNat_eq_extend some sign

/-- There is no numeral without a digit. -/
theorem exists_fault_of_unsigned_eq_nil (base : Nat) {text : List Char}
    (none : unsigned text = []) : ∃ fault, read base text = .error fault := by
  by_cases sign : text.head? = some '+'
  · obtain ⟨rest, rfl⟩ := List.head?_eq_some_iff.mp sign
    obtain rfl : rest = [] := none
    exact ⟨.badDigit, rfl⟩
  · rw [unsigned_of_head sign] at none
    subst none
    exact ⟨.empty, rfl⟩

end Laminar.Numeral
