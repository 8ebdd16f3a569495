import Laminar.Proofs.Kind
import Laminar.Proofs.Numeral
import Laminar.Proofs.Outcome
import Laminar.Proofs.Tag.Shape

/-!
# Tags written and read

The written form of a tag has the parts of the tag in their places (`toList_text`), and if the tag
is canonical these are parts of a line (`proper_ofTag`). So a canonical tag is read back from its
line (`ofLine_text`), and canonical tags from their transcript (`ofText_transcript`). A line that
is read gives a canonical tag (`canonical_of_ofLine`), so no other tags come out of a text.
-/

namespace Laminar.Tag

open Text (isBlank Blank Word Trimmed)

/-- The kind has a code, and the description fits on the rest of a line. -/
structure Canonical (tag : Tag) : Prop where
  /-- The code of the kind names it. -/
  kind : tag.kind.Canonical
  /-- The description has no line feed. -/
  single : '\n' ∉ tag.description.toList
  /-- The description neither begins nor ends with white space. -/
  trimmed : Trimmed tag.description.toList

/-! ## The written form -/

/-- A written number has its mark and its digits. -/
theorem toList_upperHex (n : Nat) :
    (Numeral.upperHex n).toList = '0' :: 'x' :: Numeral.upperHexDigits n :=
  String.toList_ofList

/-- The digits of a number are letters and digits. -/
theorem isAlnum_of_mem_digits {base n : Nat} (proper : 2 ≤ base) (bounded : base ≤ 36) :
    ∀ c ∈ (Numeral.digits base n).map Numeral.upperDigit, isAlnum c = true := by
  intro c present
  obtain ⟨d, digit, rfl⟩ := List.mem_map.mp present
  have small := Numeral.lt_of_mem_digits proper d digit
  rw [isAlnum, Numeral.digitValue?_upperDigit (by omega), Option.isSome_some]

/-- A written number is a word of letters and digits. -/
theorem word_upperHex (n : Nat) : Word isAlnum (Numeral.upperHex n).toList := by
  refine ⟨by simp [toList_upperHex], ?_⟩
  rw [toList_upperHex]
  exact List.forall_mem_cons.mpr ⟨by decide, List.forall_mem_cons.mpr ⟨by decide,
    isAlnum_of_mem_digits (by decide) (by decide)⟩⟩

/-- An end of a span is read back. -/
theorem readOffset_upperHex (offset : UInt64) :
    readOffset (Numeral.upperHex offset.toNat).toList = .ok offset := by
  have read : Numeral.read 16 (Numeral.upperHexDigits offset.toNat) = .ok offset.toNat.toUInt64 :=
    Numeral.read_digits (by decide) (by decide) offset.toNat_lt
  have unmarked : Numeral.withoutHexMark? (Numeral.upperHex offset.toNat).toList =
      some (Numeral.upperHexDigits offset.toNat) := by
    rw [toList_upperHex]
    rfl
  rw [readOffset, unmarked, Option.getD_some, read]
  exact congrArg Except.ok UInt64.ofNat_toNat

namespace LineParts

/-- The parts of the written form of a tag. -/
def ofTag (tag : Tag) : LineParts :=
  ⟨(Numeral.upperHex tag.span.start.toNat).toList, (Numeral.upperHex tag.span.stop.toNat).toList,
    tag.kind.code.toList, tag.description.toList⟩

/-- The parts of a canonical tag are parts of a line. -/
theorem proper_ofTag {tag : Tag} (canonical : tag.Canonical) : (ofTag tag).Proper :=
  ⟨word_upperHex _, word_upperHex _, Kind.word_code canonical.kind, canonical.trimmed.head,
    canonical.single⟩

end LineParts

/-- The white space in the written form of a tag. -/
def Gaps.ofTag (tag : Tag) : Gaps :=
  ⟨[], [], [], [], [' '], if tag.description = "" then [] else [' ']⟩

/-- The white space in the written form stands where it must. -/
theorem LineParts.spaced_ofTag (tag : Tag) : (ofTag tag).Spaced (Gaps.ofTag tag) := by
  have none : Blank [] := List.forall_mem_nil _
  have single : Blank [' '] := List.forall_mem_singleton.mpr (by decide)
  refine ⟨none, none, none, none, ⟨List.cons_ne_nil _ _, single⟩, ?_, ?_⟩
  · unfold Gaps.ofTag
    split
    · exact none
    · exact single
  · intro some
    have described : tag.description ≠ "" := mt String.toList_eq_nil_iff.mpr some
    rw [Gaps.ofTag, if_neg described]
    exact List.cons_ne_nil _ _

/-- The written form of a tag has its parts in their places. -/
theorem toList_text (tag : Tag) :
    tag.text.toList = (LineParts.ofTag tag).line (Gaps.ofTag tag) := by
  unfold text caption Span.text LineParts.line Gaps.ofTag LineParts.ofTag
  split
  · next none => simp [none]
  · next some => simp

/-- The written form of a canonical tag is one line. -/
theorem single_text {tag : Tag} (canonical : tag.Canonical) : '\n' ∉ tag.text.toList := by
  have offset (n : Nat) : '\n' ∉ (Numeral.upperHex n).toList :=
    (word_upperHex n).not_mem (by decide)
  have kind : '\n' ∉ tag.kind.code.toList :=
    (Kind.word_code canonical.kind).not_mem (by decide)
  rw [toList_text]
  unfold LineParts.line LineParts.ofTag Gaps.ofTag
  split <;> simp [offset, kind, canonical.single]

/-- The written form of a canonical tag has no white space at its ends. -/
theorem trimmed_text {tag : Tag} (canonical : tag.Canonical) : Trimmed tag.text.toList := by
  constructor
  · intro c first
    rw [toList_text] at first
    obtain rfl := Option.some.inj first
    decide
  · -- The last character is the description's, or the code's if there is no description.
    intro c last
    have code := Kind.word_code canonical.kind
    unfold text caption at last
    split at last
    · rw [String.toList_append, List.getLast?_append_of_ne_nil _ code.some] at last
      have shown := code.all c (List.mem_of_getLast? last)
      rwa [Bool.not_eq_true'] at shown
    · next described =>
      have some : tag.description.toList ≠ [] := mt String.toList_eq_nil_iff.mp described
      simp only [String.toList_append, ← List.append_assoc] at last
      rw [List.getLast?_append_of_ne_nil _ some] at last
      exact canonical.trimmed.last c last

/-- A canonical tag is read back from its written form. -/
theorem ofTrimmed_text {tag : Tag} (canonical : tag.Canonical) :
    ofTrimmed tag.text.toList = .ok tag := by
  have parts : LineParts.ofLine? tag.text.toList = some (LineParts.ofTag tag) := by
    rw [toList_text]
    exact LineParts.ofLine?_complete (LineParts.proper_ofTag canonical)
      (LineParts.spaced_ofTag tag)
  simp only [ofTrimmed, parts]
  rw [LineParts.ofTag]
  simp only [readOffset_upperHex, String.ofList_toList, Kind.ofCode_code canonical.kind]
  rfl

/-- A canonical tag is read back from its line. -/
theorem ofLine_text {tag : Tag} (canonical : tag.Canonical) (number : Nat) :
    ofLine number tag.text.toList = .ok (some tag) := by
  unfold ofLine
  rw [Text.trim_eq_self (trimmed_text canonical)]
  split
  · next none =>
    rw [toList_text] at none
    contradiction
  · rw [ofTrimmed_text canonical]
    rfl

/-! ## Transcripts -/

/-- A transcript ends each written form with a line feed. -/
theorem toList_transcript (tags : List Tag) :
    (transcript tags).toList = tags.flatMap fun tag => tag.text.toList ++ ['\n'] := by
  simp [transcript, String.toList_join, List.flatMap_map]

/-- The lines of a transcript of canonical tags are the written forms. None ends with a carriage
return, which would be taken for a part of the line's ending. -/
theorem lines_transcript {tags : List Tag} (canonical : ∀ tag ∈ tags, tag.Canonical) :
    Text.lines (transcript tags).toList = tags.map fun tag => tag.text.toList := by
  rw [toList_transcript]
  induction tags with
  | nil => rfl
  | cons tag tags later =>
    have first := canonical tag List.mem_cons_self
    have no_return : tag.text.toList.getLast? ≠ some '\r' := by
      intro last
      have := (trimmed_text first).last _ last
      contradiction
    rw [List.flatMap_cons, List.append_assoc, List.singleton_append,
      Text.lines_append (single_text first) no_return, List.map_cons,
      later fun tag present => canonical tag (List.mem_cons_of_mem _ present)]

/-- Canonical tags are read back from their lines, whatever the numbers of the lines. -/
theorem ofLines_text {tags : List Tag} (canonical : ∀ tag ∈ tags, tag.Canonical) (number : Nat) :
    ofLines number (tags.map fun tag => tag.text.toList) = .ok tags := by
  induction tags generalizing number with
  | nil => rfl
  | cons tag tags later =>
    have first := ofLine_text (canonical tag List.mem_cons_self) number
    have rest := later (fun tag present => canonical tag (List.mem_cons_of_mem _ present))
      (number + 1)
    rw [List.map_cons, ofLines, first, rest]
    rfl

/-- Canonical tags are read back from their transcript. -/
theorem ofText_transcript {tags : List Tag} (canonical : ∀ tag ∈ tags, tag.Canonical) :
    ofText (transcript tags) = .ok tags := by
  rw [ofText, lines_transcript canonical, ofLines_text canonical]

/-! ## What is read -/

/-- The description is at the end of a line. -/
theorem LineParts.description_suffix (parts : LineParts) (gaps : Gaps) :
    parts.description <:+ parts.line gaps :=
  ⟨'[' :: (gaps.beforeStart ++ parts.start ++ gaps.afterStart ++ ',' ::
    (gaps.beforeStop ++ parts.stop ++ gaps.afterStop ++ ')' ::
      (gaps.beforeCode ++ parts.code ++ gaps.afterCode))), by simp [line]⟩

/-- What is read off a line without white space at its ends is canonical. The description ends where
the line ends, and the line was trimmed. -/
theorem canonical_of_ofTrimmed {text : List Char} {tag : Tag} (trimmed : Trimmed text)
    (read : ofTrimmed text = .ok tag) : tag.Canonical := by
  unfold ofTrimmed at read
  split at read
  · contradiction
  · next parts found =>
    obtain ⟨proper, gaps, -, rfl⟩ := LineParts.ofLine?_sound found
    simp only [bind_eq_ok_iff] at read
    obtain ⟨start, -, stop, -, made⟩ := read
    obtain rfl := Except.ok.inj made
    refine ⟨Kind.canonical_ofCode ?_, ?_, ?_⟩
    · rw [String.toList_ofList]
      exact proper.code
    · rw [String.toList_ofList]
      exact proper.single
    · rw [String.toList_ofList]
      obtain ⟨front, split⟩ := parts.description_suffix gaps
      refine ⟨proper.head, fun c last => trimmed.last c ?_⟩
      rw [← split]
      exact List.mem_getLast?_append_of_mem_getLast? last

/-- What is read off a line is canonical. -/
theorem canonical_of_ofLine {number : Nat} {text : List Char} {tag : Tag}
    (read : ofLine number text = .ok (some tag)) : tag.Canonical := by
  unfold ofLine at read
  split at read
  · cases Except.ok.inj read
  · rw [mapError_eq_ok_iff, map_eq_ok_iff] at read
    obtain ⟨_, found, same⟩ := read
    obtain rfl := Option.some.inj same
    exact canonical_of_ofTrimmed (Text.trimmed_trim text) found

/-- What is read off lines is canonical. -/
theorem canonical_of_ofLines {number : Nat} {lines : List (List Char)} {tags : List Tag}
    (read : ofLines number lines = .ok tags) : ∀ tag ∈ tags, tag.Canonical := by
  induction lines generalizing number tags with
  | nil =>
    obtain rfl := Except.ok.inj read
    exact List.forall_mem_nil _
  | cons line lines later =>
    simp only [ofLines, bind_eq_ok_iff] at read
    obtain ⟨found, first, others, rest, joined⟩ := read
    obtain rfl := Except.ok.inj joined
    refine List.forall_mem_append.mpr ⟨fun tag present => ?_, later rest⟩
    rw [Option.mem_toList] at present
    exact canonical_of_ofLine (present ▸ first)

/-- Reading and writing are exact on canonical tags: they are read back from their transcript, and
no other tags are. What is read off any text is canonical, so it is read back from its transcript,
which is then written in the same way. -/
theorem transcript_round_trip :
    (∀ tags : List Tag, ofText (transcript tags) = .ok tags ↔ ∀ tag ∈ tags, tag.Canonical) ∧
      ∀ (text : String) (tags : List Tag), ofText text = .ok tags →
        (∀ tag ∈ tags, tag.Canonical) ∧ ofText (transcript tags) = .ok tags ∧
          (ofText (transcript tags)).map transcript = .ok (transcript tags) := by
  constructor
  · exact fun tags => ⟨canonical_of_ofLines, ofText_transcript⟩
  · intro text tags read
    have canonical := canonical_of_ofLines read
    have back := ofText_transcript canonical
    refine ⟨canonical, back, ?_⟩
    rw [back]
    rfl

/-- An inverted span, a carriage return inside a description and a code that begins like an
integer's are kept; an integer of three bytes is not. -/
theorem transcript_round_trip_mixed :
    let text := " [5,0X3)\t>q a\r[b \r\n\n[ FFFFFFFFFFFFFFFF , 0 )  <Bx"
    let tags : List Tag :=
      [⟨⟨5, 3⟩, .integer 8 true .big, "a\r[b"⟩, ⟨⟨0xFFFFFFFFFFFFFFFF, 0⟩, .verbatim "<Bx", ""⟩]
    let wide : List Tag := [⟨⟨0, 3⟩, .integer 3 false .little, ""⟩]
    ofText text = .ok tags ∧ (∀ tag ∈ tags, tag.Canonical) ∧
      ofText (transcript tags) = .ok tags ∧
        (ofText (transcript tags)).map transcript = .ok (transcript tags) ∧
          ofText (transcript wide) ≠ .ok wide := by
  intro text tags wide
  have read : ofText text = .ok tags := by decide
  obtain ⟨canonical, back, fixed⟩ := transcript_round_trip.2 text tags read
  refine ⟨read, canonical, back, fixed, ?_⟩
  rw [Ne, transcript_round_trip.1]
  intro all
  have narrow := (all _ List.mem_cons_self).kind
  contradiction

end Laminar.Tag
