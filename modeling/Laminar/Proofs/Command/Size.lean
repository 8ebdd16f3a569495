import Laminar.Command.Size
import Laminar.Proofs.Tag.Grammar
import Laminar.Proofs.Tag.RoundTrip

/-!
# Sizes and offsets

A numeral is a row of digits, with or without a plus sign before it (`Numeral.Writes`), and a size
is a decimal numeral, or a hexadecimal one after a mark (`IsSize`). The rows may be of any length.
What is read is the number that stands there, and a number that needs more than 64 bits is refused
and never cut off (`size_and_offset_exact`). The written forms of a number are read back.
-/

namespace Laminar

open Text (Word)

namespace Numeral

/-- A text is a row of digits, with or without a plus sign before it, that stands for a number. -/
def Writes (base : Nat) (text : List Char) (n : Nat) : Prop :=
  ∃ sign digits, sign ∈ [[], ['+']] ∧ text = sign ++ digits ∧ Word (isDigit base) digits ∧
    denoted base digits = n

/-- A sign is not a digit. -/
theorem isDigit_plus (base : Nat) : isDigit base '+' = false :=
  rfl

/-- A numeral is a row of digits after the sign, if there is one. -/
theorem writes_iff {base : Nat} {text : List Char} {n : Nat} :
    Writes base text n ↔
      Word (isDigit base) (unsigned text) ∧ denoted base (unsigned text) = n := by
  constructor
  · rintro ⟨sign, digits, signs, rfl, word, value⟩
    have left : unsigned (sign ++ digits) = digits := by
      simp only [List.mem_cons, List.not_mem_nil, or_false] at signs
      rcases signs with rfl | rfl
      · refine unsigned_of_head fun plus => ?_
        exact word.not_mem (isDigit_plus base) (List.mem_of_head? plus)
      · rfl
    rw [left]
    exact ⟨word, value⟩
  · rintro ⟨word, value⟩
    by_cases sign : text.head? = some '+'
    · obtain ⟨rest, rfl⟩ := List.head?_eq_some_iff.mp sign
      exact ⟨['+'], rest, by simp, rfl, word, value⟩
    · rw [unsigned_of_head sign] at word value
      exact ⟨[], text, by simp, rfl, word, value⟩

/-- A text is read as a number if and only if it is a numeral for it. -/
theorem read_eq_ok_iff_writes {base : Nat} {text : List Char} {word : UInt64}
    (proper : 0 < base) : read base text = .ok word ↔ Writes base text word.toNat := by
  rw [writes_iff]
  by_cases none : unsigned text = []
  · obtain ⟨fault, failed⟩ := exists_fault_of_unsigned_eq_nil base none
    rw [failed]
    exact iff_of_false nofun fun writes => writes.1.some none
  · rw [read, readNat_eq_extend_unsigned none, map_extend_eq_ok_iff proper]
    exact and_congr_left' ⟨fun digits => ⟨none, digits⟩, Word.all⟩

/-- A numeral for a number that needs more than 64 bits is refused for its size. -/
theorem read_of_writes_large {base : Nat} {text : List Char} {n : Nat} (proper : 0 < base)
    (writes : Writes base text n) (large : wordLimit ≤ n) :
    read base text = .error .tooLarge := by
  obtain ⟨word, value⟩ := writes_iff.mp writes
  have start : (0 : Nat) < wordLimit := by decide
  rw [read, readNat_eq_extend_unsigned word.some]
  cases outcome : extend base 0 (unsigned text) with
  | error fault =>
    rw [eq_tooLarge_of_extend word.all outcome]
    rfl
  | ok read =>
    obtain ⟨-, same, fits⟩ := (extend_eq_ok_iff proper start _).mp outcome
    omega

end Numeral

namespace Command

open Numeral (Writes withoutHexMark?)

/-- A text is a numeral in decimal, or a mark and a numeral in hexadecimal. -/
def IsSize (text : List Char) (n : Nat) : Prop :=
  Writes 10 text n ∨
    ∃ mark digits, mark ∈ [['0', 'x'], ['0', 'X']] ∧ text = mark ++ digits ∧ Writes 16 digits n

/-- A numeral in decimal has no mark. -/
theorem withoutHexMark?_of_writes {text : List Char} {n : Nat} (writes : Writes 10 text n) :
    withoutHexMark? text = none := by
  have small : Numeral.isDigit 10 'x' = false := by decide
  have large : Numeral.isDigit 10 'X' = false := by decide
  rw [Option.eq_none_iff_forall_ne_some]
  intro rest marked
  rcases Numeral.withoutHexMark?_eq_some_iff.mp marked with rfl | rfl
  · exact (Numeral.writes_iff.mp writes).1.not_mem small (by simp [Numeral.unsigned])
  · exact (Numeral.writes_iff.mp writes).1.not_mem large (by simp [Numeral.unsigned])

/-- The mark, if there is one, decides the base of a size. -/
theorem isSize_iff (text : List Char) (n : Nat) :
    IsSize text n ↔
      match withoutHexMark? text with
      | some digits => Writes 16 digits n
      | none => Writes 10 text n := by
  constructor
  · rintro (decimal | ⟨mark, digits, marks, rfl, writes⟩)
    · rw [withoutHexMark?_of_writes decimal]
      exact decimal
    · simp only [List.mem_cons, List.not_mem_nil, or_false] at marks
      rcases marks with rfl | rfl <;> exact writes
  · intro writes
    cases found : withoutHexMark? text with
    | none =>
      rw [found] at writes
      exact .inl writes
    | some digits =>
      rw [found] at writes
      rcases Numeral.withoutHexMark?_eq_some_iff.mp found with same | same
      · exact .inr ⟨_, digits, by simp, same, writes⟩
      · exact .inr ⟨_, digits, by simp, same, writes⟩

/-- A size is read as the number that it says. -/
theorem readSize_eq_ok_iff {text : List Char} {size : UInt64} :
    readSize text = .ok size ↔ IsSize text size.toNat := by
  rw [isSize_iff, readSize]
  cases withoutHexMark? text with
  | none => exact Numeral.read_eq_ok_iff_writes (by decide)
  | some digits => exact Numeral.read_eq_ok_iff_writes (by decide)

/-- A size that needs more than 64 bits is refused. -/
theorem readSize_of_large {text : List Char} {n : Nat} (stated : IsSize text n)
    (large : Numeral.wordLimit ≤ n) : readSize text = .error .tooLarge := by
  rw [isSize_iff] at stated
  unfold readSize
  cases found : withoutHexMark? text with
  | none =>
    rw [found] at stated
    exact Numeral.read_of_writes_large (by decide) stated large
  | some digits =>
    rw [found] at stated
    exact Numeral.read_of_writes_large (by decide) stated large

/-- A text is a size as far as it is one without the white space at its ends. -/
theorem size_eq_ok_iff {text : String} {n : UInt64} :
    size text = .ok n ↔ IsSize (Text.trim text.toList) n.toNat :=
  mapError_eq_ok_iff.trans readSize_eq_ok_iff

/-! ## Written numbers -/

/-- Letters and digits have no white space at their ends. -/
theorem trim_of_alnum {text : List Char} (alnum : ∀ c ∈ text, Tag.isAlnum c = true) :
    Text.trim text = text :=
  Text.trim_eq_self ⟨fun c first => Tag.isBlank_of_isAlnum (alnum c (List.mem_of_head? first)),
    fun c last => Tag.isBlank_of_isAlnum (alnum c (List.mem_of_getLast? last))⟩

/-- The digits of a number are a numeral for it. -/
theorem writes_digits {base : Nat} (proper : 2 ≤ base) (bounded : base ≤ 36) (n : UInt64) :
    Writes base ((Numeral.digits base n.toNat).map Numeral.upperDigit) n.toNat := by
  have read := Numeral.read_digits proper bounded n.toNat_lt
  rw [show n.toNat.toUInt64 = n from UInt64.ofNat_toNat] at read
  exact (Numeral.read_eq_ok_iff_writes (by omega)).mp read

/-- A number in decimal is read back. -/
theorem size_decimal (n : UInt64) : size (Numeral.decimal n.toNat) = .ok n := by
  rw [size_eq_ok_iff, Numeral.decimal, String.toList_ofList,
    trim_of_alnum (Tag.isAlnum_of_mem_digits (by decide) (by decide))]
  exact .inl (writes_digits (by decide) (by decide) n)

/-- A number in marked hexadecimal is read back. -/
theorem size_upperHex (n : UInt64) : size (Numeral.upperHex n.toNat) = .ok n := by
  rw [size_eq_ok_iff, trim_of_alnum (Tag.word_upperHex n.toNat).all, Tag.toList_upperHex]
  exact .inr ⟨['0', 'x'], _, by simp, rfl, writes_digits (by decide) (by decide) n⟩

/-- A size is read if and only if its text, without the white space at its ends, is a numeral in
decimal, or a mark and a numeral in hexadecimal, for a number of 64 bits, and what is read is this
number. Any other text is refused, and a larger number for its size. The written forms of a number
are read back, also as the end of a span. A text of letters and digits is read as an offset if and
only if, after a mark or without one, it is a row of hexadecimal digits for this offset. -/
theorem size_and_offset_exact :
    (∀ (text : String) (n : UInt64),
      size text = .ok n ↔ IsSize (Text.trim text.toList) n.toNat) ∧
    (∀ text : String, (∃ fault, size text = .error fault) ↔
      ¬ ∃ n < 2 ^ 64, IsSize (Text.trim text.toList) n) ∧
    (∀ (text : String) (n : Nat), IsSize (Text.trim text.toList) n → 2 ^ 64 ≤ n →
      size text = .error ⟨String.ofList (Text.trim text.toList), .tooLarge⟩) ∧
    (∀ n : UInt64, size (Numeral.decimal n.toNat) = .ok n ∧
      size (Numeral.upperHex n.toNat) = .ok n ∧
      Tag.readOffset (Numeral.upperHex n.toNat).toList = .ok n) ∧
    ∀ text : List Char, (∀ c ∈ text, Tag.isAlnum c = true) → ∀ offset,
      Tag.readOffset text = .ok offset ↔ Tag.Denotes text offset := by
  refine ⟨fun text n => size_eq_ok_iff, fun text => ?_, fun text n stated large => ?_,
    fun n => ⟨size_decimal n, size_upperHex n, Tag.readOffset_upperHex n⟩,
    fun text alnum => Tag.readOffset_eq_ok_iff alnum⟩
  · constructor
    · rintro ⟨fault, refused⟩ ⟨n, fits, stated⟩
      have kept : (UInt64.ofNatLT n fits).toNat = n := rfl
      rw [← kept] at stated
      rw [size_eq_ok_iff.mpr stated] at refused
      contradiction
    · intro none
      cases outcome : size text with
      | error fault => exact ⟨fault, rfl⟩
      | ok n => exact absurd ⟨n.toNat, n.toNat_lt, size_eq_ok_iff.mp outcome⟩ none
  · rw [size, readSize_of_large stated large]
    rfl

/-- A mark before a sign, a row of zeros before the largest number and the first one beyond it. -/
theorem size_and_offset_exact_extremes :
    size "  0X+fF
" = .ok 255 ∧
      size "+0018446744073709551615" = .ok 0xFFFFFFFFFFFFFFFF ∧
      size "0018446744073709551616" = .error ⟨"0018446744073709551616", .tooLarge⟩ ∧
      Tag.readOffset "0Xff".toList = .ok 255 ∧ ¬ Tag.Denotes "0x0xff".toList 255 := by
  obtain ⟨sizes, -, large, -, offsets⟩ := size_and_offset_exact
  have short : Text.Word Tag.isAlnum "0Xff".toList := by decide
  have marked : Text.Word Tag.isAlnum "0x0xff".toList := by decide
  have zeros : IsSize (Text.trim "0018446744073709551616".toList) (2 ^ 64) :=
    .inl ⟨[], "0018446744073709551616".toList, by simp, by decide, by decide, by decide⟩
  refine ⟨(sizes _ _).mpr (.inr ⟨['0', 'X'], "+fF".toList, by simp, by decide, ?_⟩),
    (sizes _ _).mpr (.inl ?_), large _ _ zeros (Nat.le_refl _),
    (offsets _ short.all _).mpr ⟨['0', 'X'], "ff".toList, by simp, rfl, by decide, by decide⟩, ?_⟩
  · exact ⟨['+'], "fF".toList, by simp, rfl, by decide, by decide⟩
  · exact ⟨['+'], "0018446744073709551615".toList, by simp, rfl, by decide, by decide⟩
  · rw [← offsets _ marked.all]
    decide

end Command

end Laminar
