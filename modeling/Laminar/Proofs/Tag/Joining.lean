import Mathlib.Logic.Relation
import Laminar.Proofs.Tag.Deletion

/-!
# Texts put together

Where a text is empty or ends with a line feed, the lines of a text after it are lines of their own
(`lines_joined`). So both texts can be read apart, the second one with its lines numbered on from
those of the first (`ofText_joined`). An error is about the first malformed line, by its number
among all lines (`ofText_eq_error_iff`), and more white space between the lines or at their ends
makes no difference to the tags (`ofLines_of_padded`).
-/

namespace Laminar

namespace Text

/-! ## Lines -/

/-- A text is empty or ends with a line feed. -/
def Ended (text : List Char) : Prop :=
  text = [] ∨ text.getLast? = some '\n'

/-- Whether a text is ended can be computed. -/
instance (text : List Char) : Decidable (Ended text) :=
  inferInstanceAs (Decidable (_ ∨ _))

/-- A text has no line feed, or it has a first line with its ending and a text after it. -/
@[elab_as_elim]
theorem byLine {motive : List Char → Prop} (last : ∀ line, '\n' ∉ line → motive line)
    (more : ∀ line rest, '\n' ∉ line → motive rest → motive (line ++ '\n' :: rest))
    (text : List Char) : motive text := by
  induction length : text.length using Nat.strongRecOn generalizing text with
  | ind count shorter =>
    by_cases present : '\n' ∈ text
    · obtain ⟨line, rest, rfl, single⟩ := List.eq_append_cons_of_mem present
      refine more line rest single (shorter rest.length ?_ rest rfl)
      rw [← length, List.length_append, List.length_cons]
      omega
    · exact last text present

/-- Of the texts without a line feed only the empty one is ended. -/
theorem Ended.eq_nil {line : List Char} (ended : Ended line) (single : '\n' ∉ line) : line = [] :=
  ended.resolve_right fun last => single (List.mem_of_getLast? last)

/-- The text after a line feed ends as the whole text does. -/
theorem ended_append_iff (line rest : List Char) : Ended (line ++ '\n' :: rest) ↔ Ended rest := by
  cases rest with
  | nil => simp [Ended]
  | cons c rest => simp [Ended, List.getLast?_append, List.getLast?_cons_cons]

/-- A text is an ended text and what follows the last line feed. -/
theorem exists_last_line (text : List Char) :
    ∃ front line, Ended front ∧ '\n' ∉ line ∧ text = front ++ line := by
  induction text using byLine with
  | last line single => exact ⟨[], line, .inl rfl, single, rfl⟩
  | more first rest _ later =>
    obtain ⟨front, line, ended, single, rfl⟩ := later
    refine ⟨first ++ '\n' :: front, line, (ended_append_iff first front).mpr ended, single, ?_⟩
    rw [List.append_assoc, List.cons_append]

/-- A text without a line feed is a line, unless it is empty. -/
theorem lines_of_not_mem {line : List Char} (single : '\n' ∉ line) :
    lines line = if line = [] then [] else [line] := by
  rw [lines, linesAfter_of_not_mem single]
  simp

/-- The first line ends at the first line feed. -/
theorem lines_cons {line : List Char} (single : '\n' ∉ line) (rest : List Char) :
    lines (line ++ '\n' :: rest) = finishLine line.reverse :: lines rest := by
  rw [lines, linesAfter_append single, List.append_nil, lines]

/-- The lines of a text after an ended one follow the lines of that. -/
theorem lines_joined {front : List Char} (ended : Ended front) (back : List Char) :
    lines (front ++ back) = lines front ++ lines back := by
  induction front using byLine with
  | last line single =>
    obtain rfl := ended.eq_nil single
    rfl
  | more line rest single later =>
    rw [List.append_assoc, List.cons_append, lines_cons single, lines_cons single,
      later ((ended_append_iff line rest).mp ended), List.cons_append]

/-- An ended text has a line for each line feed. -/
theorem length_lines {text : List Char} (ended : Ended text) :
    (lines text).length = text.count '\n' := by
  induction text using byLine with
  | last line single =>
    obtain rfl := ended.eq_nil single
    rfl
  | more line rest single later =>
    rw [lines_cons single, List.length_cons, later ((ended_append_iff line rest).mp ended),
      List.count_append, List.count_eq_zero.mpr single, List.count_cons_self, Nat.zero_add]

/-! ## White space -/

/-- The characters of a line without its ending are characters of the text. -/
theorem finishLine_subset (line : List Char) : finishLine line.reverse ⊆ line := by
  intro c present
  rw [← List.mem_reverse]
  unfold finishLine at present
  split at present
  · next before reversed =>
    rw [reversed]
    exact List.mem_cons_of_mem _ (List.mem_reverse.mp present)
  · rwa [List.reverse_reverse, ← List.mem_reverse] at present

/-- The lines of white space are white space. -/
theorem blank_of_mem_lines {text : List Char} (blank : Blank text) :
    ∀ line ∈ lines text, Blank line := by
  induction text using byLine with
  | last line single =>
    rw [lines_of_not_mem single]
    split
    · exact List.forall_mem_nil _
    · exact List.forall_mem_singleton.mpr blank
  | more line rest single later =>
    obtain ⟨first, others⟩ := List.forall_mem_append.mp blank
    rw [lines_cons single]
    refine List.forall_mem_cons.mpr ⟨fun c present => first c (finishLine_subset line present), ?_⟩
    exact later (List.forall_mem_cons.mp others).2

/-- White space at the end of a text does not count for what is left after trimming. -/
theorem trim_append_of_blank (text : List Char) {blank : List Char} (white : Blank blank) :
    trim (text ++ blank) = trim text := by
  have reversed : ∀ c ∈ blank.reverse, isBlank c = true :=
    fun c present => white c (List.mem_reverse.mp present)
  have without (kept : List Char) : trimEnd (kept ++ blank) = trimEnd kept := by
    rw [trimEnd, List.reverse_append, List.dropWhile_append_of_pos reversed, trimEnd]
  rw [trim, List.dropWhile_append]
  split
  · next none =>
    have nothing : text.dropWhile isBlank = [] := List.isEmpty_iff.mp none
    rw [List.dropWhile_eq_nil_iff.mpr white, trim, nothing]
  · rw [without, trim]

/-- A carriage return at the end of a line does not count either. -/
theorem trim_finishLine (line : List Char) : trim (finishLine line.reverse) = trim line := by
  unfold finishLine
  split
  · next before reversed =>
    have whole : line = before.reverse ++ ['\r'] := by
      rw [← List.reverse_reverse line, reversed, List.reverse_cons]
    rw [whole, trim_append_of_blank before.reverse (List.forall_mem_singleton.mpr (by decide))]
  · rw [List.reverse_reverse]

/-- A text with more white space: lines that have nothing else, or a carriage return before a line
feed. Such lines come before a line, or after the last one, which is given an ending if it has
none. -/
inductive Padded : List Char → List Char → Prop
  /-- White space after an ended text. Before a line it is ended itself. -/
  | blank {front blank back : List Char} (ended : Ended front) (white : Blank blank)
      (whole : Ended blank ∨ back = []) : Padded (front ++ back) (front ++ (blank ++ back))
  /-- White space after the last line and an ending for that. -/
  | after {text blank : List Char} (white : Blank blank) : Padded text (text ++ '\n' :: blank)
  /-- A carriage return before a line feed. -/
  | carriageReturn {front back : List Char} :
      Padded (front ++ '\n' :: back) (front ++ '\r' :: '\n' :: back)

end Text

/-- The error with the lines numbered on from some lines before. -/
def HierarchyError.numberedOn (count : Nat) : HierarchyError → HierarchyError
  | .malformedLine line content fault => .malformedLine (line + count) content fault
  | error => error

namespace Tag

open Text (Blank Ended Padded)

/-! ## Errors -/

/-- An error about a line has the number of the line and the line as it stands, and apart from the
number it is the same wherever the line is. -/
theorem error_of_ofLine {number : Nat} {line : List Char} {error : HierarchyError}
    (refused : ofLine number line = .error error) :
    ∃ fault, error = .malformedLine number (String.ofList line) fault ∧
      ∀ other, ofLine other line = .error (.malformedLine other (String.ofList line) fault) := by
  unfold ofLine at refused ⊢
  split at refused
  · contradiction
  · next trimmed shown =>
    cases outcome : ofTrimmed (Text.trim line) with
    | ok tag =>
      rw [outcome] at refused
      contradiction
    | error fault =>
      rw [outcome] at refused
      exact ⟨fault, (Except.error.inj refused).symm, fun _ => rfl⟩

/-- A line that is numbered on is read alike, with the number of an error moved. -/
theorem ofLine_add (number count : Nat) (line : List Char) :
    ofLine (number + count) line = (ofLine number line).mapError (.numberedOn count) := by
  cases read : ofLine number line with
  | ok found => exact ofLine_eq_ok read (number + count)
  | error error =>
    obtain ⟨fault, rfl, everywhere⟩ := error_of_ofLine read
    exact everywhere (number + count)

/-- Lines that are numbered on are read alike, with the number of an error moved. -/
theorem ofLines_add (number count : Nat) (lines : List (List Char)) :
    ofLines (number + count) lines = (ofLines number lines).mapError (.numberedOn count) := by
  induction lines generalizing number with
  | nil => rfl
  | cons line lines later =>
    rw [ofLines, ofLines, ofLine_add, Nat.add_right_comm, later]
    cases ofLine number line with
    | error error => rfl
    | ok found => cases ofLines (number + 1) lines <;> rfl

/-- Lines are read after those before them. -/
theorem ofLines_append (number : Nat) (earlier lines : List (List Char)) :
    ofLines number (earlier ++ lines) =
      ofLines number earlier >>= fun tags =>
        (ofLines (number + earlier.length) lines).map (tags ++ ·) := by
  induction earlier generalizing number with
  | nil =>
    show ofLines number lines = (ofLines number lines).map _
    cases ofLines number lines <;> rfl
  | cons line earlier later =>
    have next : number + (line :: earlier).length = number + 1 + earlier.length := by
      rw [List.length_cons]
      omega
    rw [List.cons_append, ofLines, ofLines, later, next]
    cases ofLine number line with
    | error error => rfl
    | ok found =>
      cases ofLines (number + 1) earlier with
      | error error => rfl
      | ok tags =>
        cases ofLines (number + 1 + earlier.length) lines with
        | error error => rfl
        | ok others => exact congrArg Except.ok (List.append_assoc _ _ _).symm

/-- Lines can be read if each of them can. -/
theorem exists_ofLines_iff (number : Nat) (lines : List (List Char)) :
    (∃ tags, ofLines number lines = .ok tags) ↔
      ∀ line ∈ lines, ∃ found, ofLine 1 line = .ok found := by
  induction lines generalizing number with
  | nil => exact iff_of_true ⟨[], rfl⟩ (List.forall_mem_nil _)
  | cons line lines later =>
    rw [List.forall_mem_cons, ← later (number + 1)]
    simp only [ofLines, bind_eq_ok_iff]
    constructor
    · rintro ⟨-, found, first, tags, rest, -⟩
      exact ⟨⟨found, ofLine_eq_ok first 1⟩, tags, rest⟩
    · rintro ⟨⟨found, first⟩, tags, rest⟩
      exact ⟨_, found, ofLine_eq_ok first number, tags, rest, rfl⟩

/-- Lines are refused for the first one that is malformed. -/
theorem ofLines_eq_error_iff (number : Nat) (lines : List (List Char)) (error : HierarchyError) :
    ofLines number lines = .error error ↔
      ∃ earlier line later, lines = earlier ++ line :: later ∧
        (∀ other ∈ earlier, ∃ found, ofLine 1 other = .ok found) ∧
        ofLine (number + earlier.length) line = .error error := by
  constructor
  · intro refused
    induction lines generalizing number with
    | nil => contradiction
    | cons line lines later =>
      rw [ofLines] at refused
      cases first : ofLine number line with
      | error other =>
        rw [first] at refused
        obtain rfl := Except.error.inj refused
        exact ⟨[], line, lines, rfl, List.forall_mem_nil _, first⟩
      | ok found =>
        have rest : ofLines (number + 1) lines = .error error := by
          rw [first] at refused
          cases outcome : ofLines (number + 1) lines with
          | error other =>
            rw [outcome] at refused
            exact congrArg Except.error (Except.error.inj refused)
          | ok tags =>
            rw [outcome] at refused
            contradiction
        obtain ⟨earlier, malformed, after, rfl, readable, here⟩ := later (number + 1) rest
        refine ⟨line :: earlier, malformed, after, rfl, ?_, ?_⟩
        · exact List.forall_mem_cons.mpr ⟨⟨found, ofLine_eq_ok first 1⟩, readable⟩
        · rwa [List.length_cons, Nat.add_comm earlier.length, ← Nat.add_assoc]
  · rintro ⟨earlier, line, later, rfl, readable, malformed⟩
    obtain ⟨tags, read⟩ := (exists_ofLines_iff number earlier).mpr readable
    rw [ofLines_append, read, ofLines, malformed]
    rfl

/-! ## Texts -/

/-- A text after an ended one is read with its lines numbered on. -/
theorem ofText_joined {front : String} (ended : Ended front.toList) (back : String) :
    ofText (front ++ back) =
      ofText front >>= fun tags =>
        ((ofText back).mapError (.numberedOn (front.toList.count '\n'))).map (tags ++ ·) := by
  rw [ofText, String.toList_append, Text.lines_joined ended, ofLines_append,
    Text.length_lines ended, ofLines_add]
  rfl

/-- A text is refused for its first malformed line, by the number of that among all lines. -/
theorem ofText_eq_error_iff (text : String) (error : HierarchyError) :
    ofText text = .error error ↔
      ∃ earlier line later fault, Text.lines text.toList = earlier ++ line :: later ∧
        (∀ other ∈ earlier, ∃ found, ofLine 1 other = .ok found) ∧
        ofLine 1 line = .error (.malformedLine 1 (String.ofList line) fault) ∧
        error = .malformedLine (earlier.length + 1) (String.ofList line) fault := by
  rw [ofText, ofLines_eq_error_iff]
  constructor
  · rintro ⟨earlier, line, later, split, readable, refused⟩
    obtain ⟨fault, rfl, everywhere⟩ := error_of_ofLine refused
    rw [Nat.add_comm 1]
    exact ⟨earlier, line, later, fault, split, readable, everywhere 1, rfl⟩
  · rintro ⟨earlier, line, later, fault, split, readable, malformed, rfl⟩
    refine ⟨earlier, line, later, split, readable, ?_⟩
    rw [ofLine_add, malformed]
    show Except.error _ = Except.error _
    rw [HierarchyError.numberedOn, Nat.add_comm]

/-! ## White space -/

/-- A line with more white space at its ends is read alike. -/
theorem ofLine_of_trim_eq {number : Nat} {line other : List Char} {found : Option Tag}
    (read : ofLine number line = .ok found) (same : Text.trim line = Text.trim other) :
    ofLine number other = .ok found := by
  unfold ofLine at read ⊢
  rw [← same]
  split
  · next none =>
    rw [none] at read
    exact read
  · next some =>
    split at read
    · next none => exact absurd none some
    · rw [mapError_eq_ok_iff] at read ⊢
      exact read

/-- There is no tag in white space. -/
theorem ofLines_of_blank {lines : List (List Char)} (blank : ∀ line ∈ lines, Blank line)
    (number : Nat) : ofLines number lines = .ok [] := by
  induction lines generalizing number with
  | nil => rfl
  | cons line lines later =>
    obtain ⟨first, rest⟩ := List.forall_mem_cons.mp blank
    have none : ofLine number line = .ok none := by
      rw [ofLine, (Text.trim_eq_nil_iff line).mpr first]
    rw [ofLines, none, later rest]
    rfl

/-- Lines can be read if those before a place and those after it can. -/
theorem ofLines_append_eq_ok_iff {earlier lines : List (List Char)} {tags : List Tag} :
    ofLines 1 (earlier ++ lines) = .ok tags ↔
      ∃ first others, ofLines 1 earlier = .ok first ∧ ofLines 1 lines = .ok others ∧
        first ++ others = tags := by
  rw [ofLines_append, ofLines_add, bind_eq_ok_iff]
  simp only [map_eq_ok_iff, mapError_eq_ok_iff]
  constructor
  · rintro ⟨first, read, others, rest, joined⟩
    exact ⟨first, others, read, rest, joined⟩
  · rintro ⟨first, others, read, rest, joined⟩
    exact ⟨first, read, others, rest, joined⟩

/-- Of the lines of a text those after a place can be changed for others that are read alike. -/
theorem ofLines_append_of_alike {earlier lines others : List (List Char)} {tags : List Tag}
    (read : ofLines 1 (earlier ++ lines) = .ok tags)
    (alike : ∀ found, ofLines 1 lines = .ok found → ofLines 1 others = .ok found) :
    ofLines 1 (earlier ++ others) = .ok tags := by
  obtain ⟨first, rest, before, after, joined⟩ := ofLines_append_eq_ok_iff.mp read
  exact ofLines_append_eq_ok_iff.mpr ⟨first, rest, before, alike rest after, joined⟩

/-- A first line with more white space at its ends is read alike. -/
theorem ofLines_cons_of_trim_eq {line other : List Char} {lines : List (List Char)}
    {tags : List Tag} (same : Text.trim line = Text.trim other)
    (read : ofLines 1 (line :: lines) = .ok tags) : ofLines 1 (other :: lines) = .ok tags := by
  rw [ofLines, bind_eq_ok_iff] at read ⊢
  obtain ⟨found, first, rest⟩ := read
  exact ⟨found, ofLine_of_trim_eq first same, rest⟩

/-- A text with more white space is read alike. -/
theorem ofLines_of_padded {text padded : List Char} (more : Padded text padded) {tags : List Tag}
    (read : ofLines 1 (Text.lines text) = .ok tags) :
    ofLines 1 (Text.lines padded) = .ok tags := by
  cases more with
  | @blank front blank back ended white whole =>
    rw [Text.lines_joined ended] at read ⊢
    refine ofLines_append_of_alike read fun found rest => ?_
    have apart : Text.lines (blank ++ back) = Text.lines blank ++ Text.lines back := by
      rcases whole with endedBlank | rfl
      · exact Text.lines_joined endedBlank back
      · rw [List.append_nil]
        exact (List.append_nil _).symm
    rw [apart]
    exact ofLines_append_eq_ok_iff.mpr
      ⟨[], found, ofLines_of_blank (Text.blank_of_mem_lines white) 1, rest, rfl⟩
  | @after _ blank white =>
    obtain ⟨front, line, ended, single, rfl⟩ := Text.exists_last_line text
    rw [List.append_assoc, Text.lines_joined ended, Text.lines_cons single]
    rw [Text.lines_joined ended, Text.lines_of_not_mem single] at read
    refine ofLines_append_of_alike read fun found rest => ?_
    have none := ofLines_of_blank (Text.blank_of_mem_lines white) 1
    have last : ofLines 1 [line] = .ok found := by
      split at rest
      · next empty => rwa [ofLines_of_blank (by simp [empty, Blank])]
      · exact rest
    have trimmed := ofLines_cons_of_trim_eq (Text.trim_finishLine line).symm last
    exact ofLines_append_eq_ok_iff.mpr ⟨found, [], trimmed, none, List.append_nil found⟩
  | @carriageReturn front back =>
    obtain ⟨front, line, ended, single, rfl⟩ := Text.exists_last_line front
    have longer : '\n' ∉ line ++ ['\r'] := by simpa using single
    have returned : front ++ line ++ '\r' :: '\n' :: back =
        front ++ (line ++ ['\r'] ++ '\n' :: back) := by
      simp
    rw [List.append_assoc, Text.lines_joined ended, Text.lines_cons single] at read
    rw [returned, Text.lines_joined ended, Text.lines_cons longer]
    refine ofLines_append_of_alike read fun found => ofLines_cons_of_trim_eq ?_
    have white : Blank ['\r'] := List.forall_mem_singleton.mpr (by decide)
    rw [Text.trim_finishLine, Text.trim_finishLine, Text.trim_append_of_blank line white]

/-- A text is read alike however often white space is added to it. -/
theorem ofLines_of_padded_often {text padded : List Char}
    (more : Relation.ReflTransGen Padded text padded) {tags : List Tag}
    (read : ofLines 1 (Text.lines text) = .ok tags) :
    ofLines 1 (Text.lines padded) = .ok tags := by
  induction more with
  | refl => exact read
  | tail _ step later => exact ofLines_of_padded step later

/-- A text can be read after an ended one as the two can apart: what is wrong with the first is
wrong with both, the tags are those of the first and then those of the second, and an error about
the second is the same but for the number of the line. So an error is about the first line that is
malformed, by its number among all lines, and as often as white space is added between lines or at
their ends, the tags stay the same. -/
theorem ofText_compositional :
    (∀ front back : String, Ended front.toList →
      (∀ error, ofText front = .error error → ofText (front ++ back) = .error error) ∧
      (∀ tags others, ofText front = .ok tags → ofText back = .ok others →
        ofText (front ++ back) = .ok (tags ++ others)) ∧
      (∀ tags number content fault, ofText front = .ok tags →
        ofText back = .error (.malformedLine number content fault) →
        ofText (front ++ back) =
          .error (.malformedLine (number + front.toList.count '\n') content fault))) ∧
    (∀ text error, ofText text = .error error ↔
      ∃ earlier line later fault, Text.lines text.toList = earlier ++ line :: later ∧
        (∀ other ∈ earlier, ∃ found, ofLine 1 other = .ok found) ∧
        ofLine 1 line = .error (.malformedLine 1 (String.ofList line) fault) ∧
        error = .malformedLine (earlier.length + 1) (String.ofList line) fault) ∧
    (∀ text padded : String, Relation.ReflTransGen Padded text.toList padded.toList →
      ∀ tags, ofText text = .ok tags → ofText padded = .ok tags) := by
  refine ⟨fun front back ended => ?_, ofText_eq_error_iff,
    fun _ _ more _ => ofLines_of_padded_often more⟩
  rw [ofText_joined ended]
  refine ⟨fun error refused => ?_, fun tags others read rest => ?_,
    fun tags number content fault read refused => ?_⟩
  · rw [refused]
    rfl
  · rw [read, rest]
    rfl
  · rw [read, refused]
    rfl

/-- A blank line is counted, a carriage return at the end of the text is part of the last line, and
that line is given an ending when white space is added after it. -/
theorem ofText_compositional_mixed :
    let front := "[0,4) raw a\n\n"
    let back := "\u2003\nno tag \r"
    let error : HierarchyError := .malformedLine 4 "no tag \r" .shape
    Ended front.toList ∧
      ofText (front ++ back) = .error error ∧
      ofText ("no tag\n" ++ back) = .error (.malformedLine 1 "no tag" .shape) ∧
      ofText (front ++ "[4,2)\t<I ") =
        .ok [.raw 0 4 "a", ⟨⟨4, 2⟩, .integer 4 false .little, ""⟩] ∧
      (∃ earlier line later fault, Text.lines (front ++ back).toList = earlier ++ line :: later ∧
        (∀ other ∈ earlier, ∃ found, ofLine 1 other = .ok found) ∧
        ofLine 1 line = .error (.malformedLine 1 (String.ofList line) fault) ∧
        error = .malformedLine (earlier.length + 1) (String.ofList line) fault) ∧
      Relation.ReflTransGen Padded "[0,4) raw a".toList "\t\n[0,4) raw a\r\n ".toList ∧
      ofText "\t\n[0,4) raw a\r\n " = .ok [.raw 0 4 "a"] := by
  intro front back error
  obtain ⟨joined, first, padded⟩ := ofText_compositional
  have ended : Ended front.toList := by decide
  have read : ofText front = .ok [.raw 0 4 "a"] := by decide
  have refused : ofText back = .error (.malformedLine 2 "no tag \r" .shape) := by decide
  have malformed : ofText "no tag\n" = .error (.malformedLine 1 "no tag" .shape) := by decide
  have rest : ofText "[4,2)\t<I " = .ok [⟨⟨4, 2⟩, .integer 4 false .little, ""⟩] := by decide
  have number : 2 + front.toList.count '\n' = 4 := by decide
  have both : ofText (front ++ back) = .error error := by
    rw [(joined front back ended).2.2 _ _ _ _ read refused, number]
  have line : ofText "[0,4) raw a" = .ok [.raw 0 4 "a"] := by decide
  have before : Padded "[0,4) raw a".toList "\t\n[0,4) raw a".toList :=
    @Padded.blank [] ['\t', '\n'] _ (by decide) (List.all_eq_true.mp (by decide)) (by decide)
  have after : Padded "\t\n[0,4) raw a".toList "\t\n[0,4) raw a\n ".toList :=
    @Padded.after _ [' '] (List.all_eq_true.mp (by decide))
  have returned : Padded "\t\n[0,4) raw a\n ".toList "\t\n[0,4) raw a\r\n ".toList :=
    @Padded.carriageReturn "\t\n[0,4) raw a".toList [' ']
  have more := ((Relation.ReflTransGen.single before).tail after).tail returned
  exact ⟨ended, both, (joined _ back (by decide)).1 _ malformed,
    (joined front _ ended).2.1 _ _ read rest, (first _ _).mp both, more, padded _ _ more _ line⟩

end Tag

end Laminar
