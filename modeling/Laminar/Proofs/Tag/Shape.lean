import Laminar.Proofs.Text
import Laminar.Tag.Line

/-!
# The shape of a tag's line

A line has the parts of a tag if they stand on it in their places, with white space between them
where it may be. `Spells` says so without a reader. The reader finds exactly the parts that a line
spells (`ofLine?_eq_some_iff`), so a line spells one list of parts at most.
-/

namespace Laminar.Tag

open Text (isBlank Blank Word)

/-! ## Words and white space -/

/-- White space is neither a letter nor a digit. -/
theorem isAlnum_of_isBlank {c : Char} (blank : isBlank c = true) : isAlnum c = false := by
  have value : Numeral.digitValue? c = none := by
    simp only [isBlank, Bool.or_eq_true, Bool.and_eq_true, decide_eq_true_eq, beq_iff_eq] at blank
    simp only [Numeral.digitValue?, Char.le_def, UInt32.le_iff_toNat_le]
    have code : c.val.toNat = c.toNat := rfl
    rw [if_neg, if_neg, if_neg] <;> simp <;> omega
  rw [isAlnum, value, Option.isSome_none]

/-- A letter or digit is no white space. -/
theorem isBlank_of_isAlnum {c : Char} (alnum : isAlnum c = true) : isBlank c = false := by
  by_contra blank
  rw [isAlnum_of_isBlank (eq_true_of_ne_false blank)] at alnum
  contradiction

/-- The expected character is read where it stands. -/
theorem expect?_eq_some_iff {c : Char} {text rest : List Char} :
    expect? c text = some rest ↔ text = c :: rest := by
  cases text with
  | nil => simp [expect?]
  | cons d text => by_cases same : d = c <;> simp [expect?, same]

/-- A word is what stands before the first character of another class. -/
theorem word?_eq_some_iff {p : Char → Bool} {text found rest : List Char} :
    word? p text = some (found, rest) ↔
      Word p found ∧ (∀ c ∈ rest.head?, p c = false) ∧ text = found ++ rest := by
  have reads : word? p text = some (found, rest) ↔
      found ≠ [] ∧ text.takeWhile p = found ∧ text.dropWhile p = rest := by
    unfold word?
    split
    · next none =>
      rw [none]
      constructor
      · intro absent
        contradiction
      · rintro ⟨some, rfl, -⟩
        contradiction
    · next taken some =>
      rw [Option.some.injEq, Prod.mk.injEq]
      constructor
      · rintro ⟨same, left⟩
        exact ⟨same ▸ some, same, left⟩
      · rintro ⟨-, same, left⟩
        exact ⟨same, left⟩
  rw [reads, Text.span_eq_iff]
  constructor
  · rintro ⟨some, all, split⟩
    exact ⟨⟨some, all⟩, split⟩
  · rintro ⟨⟨some, all⟩, split⟩
    exact ⟨some, all, split⟩

/-- White space is left out up to the first other character. -/
theorem skipBlank_eq_iff {text rest : List Char} :
    skipBlank text = rest ↔
      (∀ c ∈ rest.head?, isBlank c = false) ∧ ∃ gap, Blank gap ∧ text = gap ++ rest := by
  constructor
  · intro left
    obtain ⟨blank, refused, split⟩ := Text.span_eq_iff.mp ⟨rfl, left⟩
    exact ⟨refused, _, blank, split⟩
  · rintro ⟨refused, gap, blank, split⟩
    exact (Text.span_eq_iff.mpr ⟨blank, refused, split⟩).2

/-- After white space comes a character of neither class. -/
theorem refused_gap {p : Char → Bool} {gap : List Char} (blank : Blank gap)
    (apart : ∀ c, isBlank c = true → p c = false) {d : Char} (closing : p d = false)
    (rest : List Char) : ∀ c ∈ (gap ++ d :: rest).head?, p c = false := by
  intro c first
  cases gap with
  | nil => exact Option.some.inj first ▸ closing
  | cons b gap => exact Option.some.inj first ▸ apart b (blank b List.mem_cons_self)

/-! ## Lines -/

/-- The white space between the parts of a tag's line. -/
structure Gaps where
  /-- Before the beginning of the span. -/
  beforeStart : List Char
  /-- After the beginning of the span. -/
  afterStart : List Char
  /-- Before the end of the span. -/
  beforeStop : List Char
  /-- After the end of the span. -/
  afterStop : List Char
  /-- Before the code of the kind. -/
  beforeCode : List Char
  /-- After the code of the kind. -/
  afterCode : List Char

namespace LineParts

/-- Each part consists of the characters that it may have. -/
structure Proper (parts : LineParts) : Prop where
  /-- The beginning of the span is a word of letters and digits. -/
  start : Word isAlnum parts.start
  /-- The end of the span is a word of letters and digits. -/
  stop : Word isAlnum parts.stop
  /-- The code is a word without white space. -/
  code : Word (! isBlank ·) parts.code
  /-- The description does not begin with white space. -/
  head : ∀ c ∈ parts.description.head?, isBlank c = false
  /-- The description has no line feed. -/
  single : '\n' ∉ parts.description

/-- The white space stands where it may stand, and where it must. -/
structure Spaced (parts : LineParts) (gaps : Gaps) : Prop where
  /-- Before the beginning of the span. -/
  beforeStart : Blank gaps.beforeStart
  /-- After the beginning of the span. -/
  afterStart : Blank gaps.afterStart
  /-- Before the end of the span. -/
  beforeStop : Blank gaps.beforeStop
  /-- After the end of the span. -/
  afterStop : Blank gaps.afterStop
  /-- Before the code, where some white space must be. -/
  beforeCode : Word isBlank gaps.beforeCode
  /-- After the code. -/
  afterCode : Blank gaps.afterCode
  /-- A description is kept apart from the code. -/
  apart : parts.description ≠ [] → gaps.afterCode ≠ []

/-- The line with the parts in their places. -/
def line (parts : LineParts) (gaps : Gaps) : List Char :=
  '[' :: (gaps.beforeStart ++ (parts.start ++ (gaps.afterStart ++ ',' ::
    (gaps.beforeStop ++ (parts.stop ++ (gaps.afterStop ++ ')' ::
      (gaps.beforeCode ++ (parts.code ++ (gaps.afterCode ++ parts.description)))))))))

/-- A line has the parts of a tag in their places. -/
def Spells (parts : LineParts) (text : List Char) : Prop :=
  ∃ gaps, parts.Spaced gaps ∧ text = parts.line gaps

/-- The rest of a line is a description if white space goes before it. -/
theorem description?_eq_some_iff {text description : List Char} :
    description? text = some description ↔
      (∀ c ∈ description.head?, isBlank c = false) ∧ '\n' ∉ description ∧
        ∃ gap, Blank gap ∧ text = gap ++ description := by
  have reads : description? text = some description ↔
      skipBlank text = description ∧ '\n' ∉ description := by
    simp only [description?]
    split
    · next feed =>
      constructor
      · intro absent
        contradiction
      · rintro ⟨rfl, single⟩
        contradiction
    · next single =>
      rw [Option.some.injEq]
      exact ⟨fun same => ⟨same, same ▸ single⟩, And.left⟩
  rw [reads, skipBlank_eq_iff]
  exact ⟨fun ⟨⟨head, gap⟩, single⟩ => ⟨head, single, gap⟩,
    fun ⟨head, single, gap⟩ => ⟨⟨head, gap⟩, single⟩⟩

/-- What is read off a line stands on it. The code takes all that is no white space, so a
description cannot follow it at once. -/
theorem ofLine?_sound {text : List Char} {parts : LineParts} (found : ofLine? text = some parts) :
    parts.Proper ∧ parts.Spells text := by
  simp only [ofLine?, Option.bind_eq_bind, Option.bind_eq_some_iff, expect?_eq_some_iff,
    word?_eq_some_iff, skipBlank_eq_iff, description?_eq_some_iff, Prod.exists, Option.pure_def,
    Option.some.injEq] at found
  obtain ⟨_, rfl, start, _, ⟨startWord, -, -, beforeStart, blankBeforeStart, rfl⟩,
    _, ⟨-, afterStart, blankAfterStart, rfl⟩, stop, _,
    ⟨stopWord, -, -, beforeStop, blankBeforeStop, rfl⟩,
    _, ⟨-, afterStop, blankAfterStop, rfl⟩, beforeCode, _, ⟨blankBeforeCode, -, rfl⟩,
    code, _, ⟨codeWord, ended, rfl⟩, description, ⟨head, single, afterCode, blankAfterCode, rfl⟩,
    rfl⟩ := found
  refine ⟨⟨startWord, stopWord, codeWord, head, single⟩,
    ⟨beforeStart, afterStart, beforeStop, afterStop, beforeCode, afterCode⟩,
    ⟨blankBeforeStart, blankAfterStart, blankBeforeStop, blankAfterStop, blankBeforeCode,
      blankAfterCode, ?_⟩, rfl⟩
  rintro some rfl
  obtain ⟨c, rest, rfl⟩ := List.exists_cons_of_ne_nil some
  have refused := head c rfl
  have taken := ended c rfl
  rw [refused] at taken
  contradiction

/-- A code ends before the description. -/
theorem Spaced.code_ends {parts : LineParts} {gaps : Gaps} (spaced : parts.Spaced gaps) :
    ∀ c ∈ (gaps.afterCode ++ parts.description).head?, (! isBlank c) = false := by
  intro c first
  rw [Bool.not_eq_false']
  by_cases missing : gaps.afterCode = []
  · have none : parts.description = [] := by
      by_contra some
      exact spaced.apart some missing
    rw [missing, none] at first
    contradiction
  · rw [List.head?_append_of_ne_nil _ missing] at first
    exact spaced.afterCode c (List.mem_of_head? first)

/-- What stands on a line is read off it. Each part ends because what follows it is of another
class. -/
theorem ofLine?_complete {parts : LineParts} {gaps : Gaps} (proper : parts.Proper)
    (spaced : parts.Spaced gaps) : ofLine? (parts.line gaps) = some parts := by
  simp only [ofLine?, Option.bind_eq_bind, Option.bind_eq_some_iff, expect?_eq_some_iff,
    word?_eq_some_iff, skipBlank_eq_iff, description?_eq_some_iff, Prod.exists, Option.pure_def,
    Option.some.injEq]
  have comma : isAlnum ',' = false ∧ isBlank ',' = false := by decide
  have close : isAlnum ')' = false ∧ isBlank ')' = false := by decide
  have never {d : Char} (other : isBlank d = false) (rest : List Char) :
      ∀ c ∈ (d :: rest).head?, isBlank c = false :=
    fun _ first => Option.some.inj first ▸ other
  refine ⟨_, rfl, parts.start, _, ⟨proper.start, ?_, ?_, _, spaced.beforeStart, rfl⟩,
    _, ⟨never comma.2 _, _, spaced.afterStart, rfl⟩,
    parts.stop, _, ⟨proper.stop, ?_, ?_, _, spaced.beforeStop, rfl⟩,
    _, ⟨never close.2 _, _, spaced.afterStop, rfl⟩,
    gaps.beforeCode, _, ⟨spaced.beforeCode, ?_, rfl⟩,
    parts.code, _, ⟨proper.code, spaced.code_ends, rfl⟩,
    parts.description, ⟨proper.head, proper.single, _, spaced.afterCode, rfl⟩, rfl⟩
  · exact refused_gap spaced.afterStart (fun _ => isAlnum_of_isBlank) comma.1 _
  · exact proper.start.head (fun _ => isBlank_of_isAlnum) _
  · exact refused_gap spaced.afterStop (fun _ => isAlnum_of_isBlank) close.1 _
  · exact proper.stop.head (fun _ => isBlank_of_isAlnum) _
  · exact proper.code.head (fun c => by simp) _

/-- The parts read off a line are those that stand on it. -/
theorem ofLine?_eq_some_iff {text : List Char} {parts : LineParts} :
    ofLine? text = some parts ↔ parts.Proper ∧ parts.Spells text := by
  constructor
  · exact ofLine?_sound
  · rintro ⟨proper, gaps, spaced, rfl⟩
    exact ofLine?_complete proper spaced

end LineParts

end Laminar.Tag
