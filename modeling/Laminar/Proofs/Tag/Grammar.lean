import Laminar.Proofs.Numeral
import Laminar.Proofs.Tag.Shape

/-!
# The grammar of a tag's line

A line is a tag's if, without the white space at its ends, it is put together from the parts of a
tag (`Composes`) and each end of the span stands for a number that fits (`Denotes`). There is one
way at most to take a line apart (`Composes.unique`). What is read off a line is what the parts say,
and all other lines are blank or malformed (`ofLine_grammar`).
-/

namespace Laminar.Tag

open Text (isBlank Blank Word Trimmed)

/-! ## Offsets -/

/-- A text is a row of hexadecimal digits, with or without a mark before it, that stands for an
offset. -/
def Denotes (text : List Char) (offset : UInt64) : Prop :=
  ∃ mark digits, mark ∈ [[], ['0', 'x'], ['0', 'X']] ∧ text = mark ++ digits ∧
    Word (Numeral.isDigit 16) digits ∧ Numeral.denoted 16 digits = offset.toNat

/-- A row of digits has no mark. -/
theorem withoutHexMark?_of_digits {digits : List Char} (word : Word (Numeral.isDigit 16) digits) :
    Numeral.withoutHexMark? digits = none := by
  rw [Option.eq_none_iff_forall_ne_some]
  intro rest marked
  have small : Numeral.isDigit 16 'x' = false := by decide
  have large : Numeral.isDigit 16 'X' = false := by decide
  rcases Numeral.withoutHexMark?_eq_some_iff.mp marked with rfl | rfl
  · exact word.not_mem small (by simp)
  · exact word.not_mem large (by simp)

/-- What is left of a text without a mark, or the text if it has none. -/
def unmarked (text : List Char) : List Char :=
  (Numeral.withoutHexMark? text).getD text

/-- What stands for an offset is a row of digits after the mark, if there is one. -/
theorem denotes_iff (text : List Char) (offset : UInt64) :
    Denotes text offset ↔
      Word (Numeral.isDigit 16) (unmarked text) ∧
        Numeral.denoted 16 (unmarked text) = offset.toNat := by
  constructor
  · rintro ⟨mark, digits, marks, rfl, word, value⟩
    have left : unmarked (mark ++ digits) = digits := by
      simp only [List.mem_cons, List.not_mem_nil, or_false] at marks
      rcases marks with rfl | marked
      · rw [unmarked, List.nil_append, withoutHexMark?_of_digits word, Option.getD_none]
      · have found : Numeral.withoutHexMark? (mark ++ digits) = some digits := by
          rcases marked with rfl | rfl <;> rfl
        rw [unmarked, found, Option.getD_some]
    rw [left]
    exact ⟨word, value⟩
  · rintro ⟨word, value⟩
    cases found : Numeral.withoutHexMark? text with
    | none =>
      rw [unmarked, found, Option.getD_none] at word value
      exact ⟨[], text, by simp, rfl, word, value⟩
    | some digits =>
      rw [unmarked, found, Option.getD_some] at word value
      rcases Numeral.withoutHexMark?_eq_some_iff.mp found with same | same
      · exact ⟨_, digits, by simp, same, word, value⟩
      · exact ⟨_, digits, by simp, same, word, value⟩

/-- Without a mark there is no character that was not there before. -/
theorem unmarked_subset (text : List Char) : unmarked text ⊆ text := by
  unfold unmarked
  cases found : Numeral.withoutHexMark? text with
  | none => exact List.Subset.refl text
  | some digits =>
    rcases Numeral.withoutHexMark?_eq_some_iff.mp found with rfl | rfl
    · exact List.subset_append_right _ digits
    · exact List.subset_append_right _ digits

/-- A text of letters and digits is read as an offset if and only if it stands for the offset. -/
theorem readOffset_eq_ok_iff {text : List Char} (alnum : ∀ c ∈ text, isAlnum c = true)
    (offset : UInt64) : readOffset text = .ok offset ↔ Denotes text offset := by
  have unsigned : (unmarked text).head? ≠ some '+' := by
    intro sign
    have plus : isAlnum '+' = false := by decide
    have present := alnum '+' (unmarked_subset text (List.mem_of_head? sign))
    rw [plus] at present
    contradiction
  rw [readOffset, mapError_eq_ok_iff, denotes_iff]
  refine (Numeral.read_eq_ok_iff (Nat.zero_lt_succ 15) unsigned).trans (and_congr_left' ?_)
  exact ⟨fun row => ⟨row.1, row.2⟩, fun row => ⟨row.some, row.all⟩⟩

/-! ## Lines -/

/-- A text without white space at its ends is put together from the parts of a tag and the white
space between them; if there is no description, there is no white space before it. -/
structure Composes (parts : LineParts) (gaps : Gaps) (text : List Char) : Prop where
  /-- Each part has the characters that it may have. -/
  proper : parts.Proper
  /-- The white space stands where it may and where it must. -/
  spaced : parts.Spaced gaps
  /-- White space follows the code if and only if a description does. -/
  described : gaps.afterCode = [] ↔ parts.description = []
  /-- The text has the parts in their places. -/
  line : text = parts.line gaps

/-- What follows the code is at the end of a line. -/
theorem afterCode_suffix (parts : LineParts) (gaps : Gaps) :
    gaps.afterCode ++ parts.description <:+ parts.line gaps :=
  ⟨'[' :: (gaps.beforeStart ++ parts.start ++ gaps.afterStart ++ ',' ::
    (gaps.beforeStop ++ parts.stop ++ gaps.afterStop ++ ')' ::
      (gaps.beforeCode ++ parts.code))), by simp [LineParts.line]⟩

/-- On a text without white space at its ends nothing follows the code without a description. White
space after the code would be the end of the text. -/
theorem composes_iff {parts : LineParts} {text : List Char} (trimmed : Trimmed text) :
    (∃ gaps, Composes parts gaps text) ↔ parts.Proper ∧ parts.Spells text := by
  constructor
  · rintro ⟨gaps, proper, spaced, -, line⟩
    exact ⟨proper, gaps, spaced, line⟩
  · rintro ⟨proper, gaps, spaced, line⟩
    refine ⟨gaps, proper, spaced, ⟨fun none => ?_, fun none => ?_⟩, line⟩
    · by_contra some
      exact spaced.apart some none
    · by_contra some
      have last := List.getLast?_eq_some_getLast some
      have ending := afterCode_suffix parts gaps
      rw [none, List.append_nil, ← line] at ending
      obtain ⟨front, split⟩ := ending
      have shown : isBlank (gaps.afterCode.getLast some) = false := by
        apply trimmed.last
        rw [← split]
        exact List.mem_getLast?_append_of_mem_getLast? last
      rw [spaced.afterCode _ (List.getLast_mem some)] at shown
      contradiction

/-- A text can be taken apart in one way at most. Each gap ends where the next part begins. -/
theorem Composes.unique {parts others : LineParts} {gaps otherGaps : Gaps} {text : List Char}
    (first : Composes parts gaps text) (second : Composes others otherGaps text) :
    others = parts ∧ otherGaps = gaps := by
  have found := LineParts.ofLine?_complete first.proper first.spaced
  have again := LineParts.ofLine?_complete second.proper second.spaced
  rw [← first.line] at found
  rw [← second.line, found] at again
  obtain rfl := Option.some.inj again
  refine ⟨rfl, ?_⟩
  have comma : isBlank ',' = false := by decide
  have close : isBlank ')' = false := by decide
  have never {d : Char} (other : isBlank d = false) (rest : List Char) :
      ∀ c ∈ (d :: rest).head?, isBlank c = false :=
    fun _ first => Option.some.inj first ▸ other
  have alnum (c : Char) : isAlnum c = true → isBlank c = false := isBlank_of_isAlnum
  have shown (c : Char) : (! isBlank c) = true → isBlank c = false := by simp
  have start := first.proper.start.head alnum
  have stop := first.proper.stop.head alnum
  have code := first.proper.code.head shown
  have same : parts.line gaps = parts.line otherGaps := first.line.symm.trans second.line
  obtain ⟨beforeStart, same⟩ := Text.span_unique (List.cons.inj same).2
    first.spaced.beforeStart (start _) second.spaced.beforeStart (start _)
  obtain ⟨afterStart, same⟩ := Text.span_unique (List.append_cancel_left same)
    first.spaced.afterStart (never comma _) second.spaced.afterStart (never comma _)
  obtain ⟨beforeStop, same⟩ := Text.span_unique (List.cons.inj same).2
    first.spaced.beforeStop (stop _) second.spaced.beforeStop (stop _)
  obtain ⟨afterStop, same⟩ := Text.span_unique (List.append_cancel_left same)
    first.spaced.afterStop (never close _) second.spaced.afterStop (never close _)
  obtain ⟨beforeCode, same⟩ := Text.span_unique (List.cons.inj same).2
    first.spaced.beforeCode.all (code _) second.spaced.beforeCode.all (code _)
  have afterCode := List.append_cancel_right (List.append_cancel_left same)
  obtain ⟨_, _, _, _, _, _⟩ := gaps
  subst beforeStart afterStart beforeStop afterStop beforeCode afterCode
  rfl

/-! ## Tags -/

/-- The parts of a line say what a tag is. -/
structure Means (parts : LineParts) (tag : Tag) : Prop where
  /-- The beginning of the span. -/
  start : Denotes parts.start tag.span.start
  /-- The end of the span. -/
  stop : Denotes parts.stop tag.span.stop
  /-- The kind is that of the code. -/
  kind : tag.kind = .ofCode (String.ofList parts.code)
  /-- The description is the one on the line, empty if there is none. -/
  description : tag.description = String.ofList parts.description

/-- What is read off a text without white space at its ends is what its parts say. -/
theorem ofTrimmed_eq_ok_iff {text : List Char} (trimmed : Trimmed text) (tag : Tag) :
    ofTrimmed text = .ok tag ↔ ∃ parts gaps, Composes parts gaps text ∧ Means parts tag := by
  have parsed : ∀ parts, (∃ gaps, Composes parts gaps text) ↔
      LineParts.ofLine? text = some parts :=
    fun parts => (composes_iff trimmed).trans LineParts.ofLine?_eq_some_iff.symm
  cases found : LineParts.ofLine? text with
  | none =>
    simp only [ofTrimmed, found]
    refine iff_of_false nofun ?_
    rintro ⟨parts, gaps, composes, -⟩
    have some := (parsed parts).mp ⟨gaps, composes⟩
    rw [found] at some
    contradiction
  | some parts =>
    obtain ⟨gaps, composes⟩ := (parsed parts).mpr found
    simp only [ofTrimmed, found, bind_eq_ok_iff, readOffset_eq_ok_iff composes.proper.start.all,
      readOffset_eq_ok_iff composes.proper.stop.all]
    constructor
    · rintro ⟨start, first, stop, last, made⟩
      obtain rfl := Except.ok.inj made
      exact ⟨parts, gaps, composes, first, last, rfl, rfl⟩
    · rintro ⟨others, otherGaps, again, told⟩
      obtain ⟨rfl, -⟩ := composes.unique again
      obtain ⟨⟨start, stop⟩, kind, description⟩ := tag
      obtain ⟨first, last, rfl, rfl⟩ := told
      exact ⟨start, first, stop, last, rfl⟩

/-- A line that is not blank is read without the white space at its ends. -/
theorem ofLine_of_not_blank {line : List Char} (shown : ¬ Blank line) (number : Nat) :
    ofLine number line = ((ofTrimmed (Text.trim line)).map some).mapError
      (.malformedLine number (String.ofList line)) := by
  unfold ofLine
  split
  · next empty => exact absurd ((Text.trim_eq_nil_iff line).mp empty) shown
  · rfl

/-- A blank line has no parts. -/
theorem not_composes_of_blank {line : List Char} (blank : Blank line) (parts : LineParts)
    (gaps : Gaps) : ¬ Composes parts gaps (Text.trim line) := by
  intro composes
  have line := composes.line
  rw [(Text.trim_eq_nil_iff _).mpr blank] at line
  contradiction

/-- A line is blank, a tag's or malformed. It is a tag's if, without the white space at its ends, it
is put together from parts that say what the tag is, and then it is so in one way only. The error
about any other line that is not blank has the number of the line and the line as it stands. -/
theorem ofLine_grammar (number : Nat) (line : List Char) :
    (ofLine number line = .ok none ↔ Blank line) ∧
      (∀ tag, ofLine number line = .ok (some tag) ↔
        ∃ parts gaps, Composes parts gaps (Text.trim line) ∧ Means parts tag) ∧
      (∀ parts gaps others otherGaps, Composes parts gaps (Text.trim line) →
        Composes others otherGaps (Text.trim line) → others = parts ∧ otherGaps = gaps) ∧
      (¬ Blank line →
        (∀ parts gaps tag, Composes parts gaps (Text.trim line) → ¬ Means parts tag) →
        ∃ fault, ofLine number line =
          .error (.malformedLine number (String.ofList line) fault)) := by
  have read := ofTrimmed_eq_ok_iff (Text.trimmed_trim line)
  by_cases blank : Blank line
  · have none : ofLine number line = .ok none := by
      rw [ofLine, (Text.trim_eq_nil_iff line).mpr blank]
    refine ⟨iff_of_true none blank, fun tag => ?_, fun _ _ _ _ => Composes.unique,
      fun shown => absurd blank shown⟩
    rw [none]
    refine iff_of_false nofun ?_
    rintro ⟨parts, gaps, composes, -⟩
    exact not_composes_of_blank blank parts gaps composes
  · rw [ofLine_of_not_blank blank]
    simp only [mapError_eq_ok_iff, map_eq_ok_iff, Option.some.injEq, exists_eq_right, read]
    refine ⟨iff_of_false (by simp) blank, fun _ => trivial, fun _ _ _ _ => Composes.unique,
      fun _ refused => ?_⟩
    cases outcome : ofTrimmed (Text.trim line) with
    | error fault => exact ⟨fault, rfl⟩
    | ok tag =>
      obtain ⟨parts, gaps, composes, told⟩ := (read tag).mp outcome
      exact absurd told (refused parts gaps tag composes)

/-- A mark in upper case, leading zeros, a line feed between parts and white space that is not
ASCII. -/
theorem ofLine_grammar_mixed :
    let line := " \u00A0[\t0X0000000000000000000f\n,7\u2003)\n\n<Q  two words ".toList
    let tag : Tag := ⟨⟨15, 7⟩, .integer 8 false .little, "two words"⟩
    ofLine 3 line = .ok (some tag) ∧
      (∃ parts gaps, Composes parts gaps (Text.trim line) ∧ Means parts tag) ∧
      ofLine 3 "\u2028".toList = .ok none ∧
      ∃ fault, ofLine 3 " no tag ".toList = .error (.malformedLine 3 " no tag " fault) := by
  intro line tag
  have read : ofLine 3 line = .ok (some tag) := by decide
  obtain ⟨-, accepted, -, -⟩ := ofLine_grammar 3 line
  obtain ⟨blank, -, -, -⟩ := ofLine_grammar 3 "\u2028".toList
  obtain ⟨-, -, -, refused⟩ := ofLine_grammar 3 " no tag ".toList
  have without : ∀ parts gaps tag, Composes parts gaps (Text.trim " no tag ".toList) →
      ¬ Means parts tag := by
    intro parts gaps _ composes
    have bracket : (Text.trim " no tag ".toList).head? ≠ some '[' := by decide
    exact absurd (congrArg List.head? composes.line) bracket
  have separator : Blank "\u2028".toList := List.all_eq_true.mp (by decide)
  have shown : ¬ Blank " no tag ".toList := mt List.all_eq_true.mpr (by decide)
  exact ⟨read, (accepted tag).mp read, blank.mpr separator, refused shown without⟩

end Laminar.Tag
