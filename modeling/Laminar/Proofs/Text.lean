import Mathlib.Data.List.DropRight
import Laminar.Text.Blank
import Laminar.Text.Lines

/-!
# Cutting texts

A word is what stands before the first character of another class (`span_eq_iff`). A text without
white space at its ends is not changed by trimming, and trimming leaves such a text
(`trim_eq_self`, `trimmed_trim`). A line feed ends a line: the text before the first one is a
line, and the lines of the text after it follow (`lines_append`).
-/

namespace Laminar.Text

/-- A text has only white space. -/
def Blank (text : List Char) : Prop :=
  ∀ c ∈ text, isBlank c = true

/-- A text is not empty and has only characters of the class `p`. -/
structure Word (p : Char → Bool) (text : List Char) : Prop where
  /-- There is a character. -/
  some : text ≠ []
  /-- All characters are of the class. -/
  all : ∀ c ∈ text, p c = true

/-- A text neither begins nor ends with white space. -/
structure Trimmed (text : List Char) : Prop where
  /-- The first character is no white space. -/
  head : ∀ c ∈ text.head?, isBlank c = false
  /-- The last character is no white space. -/
  last : ∀ c ∈ text.getLast?, isBlank c = false

/-- Whether a text is a word of certain characters can be computed. -/
instance (p : Char → Bool) (text : List Char) : Decidable (Word p text) :=
  decidable_of_iff (text.isEmpty = false ∧ text.all p = true)
    ⟨fun shown => ⟨List.isEmpty_eq_false_iff.mp shown.1, List.all_eq_true.mp shown.2⟩,
      fun word => ⟨List.isEmpty_eq_false_iff.mpr word.some, List.all_eq_true.mpr word.all⟩⟩

/-- A word begins with a character of its class. -/
theorem Word.head {p q : Char → Bool} {text : List Char} (word : Word p text)
    (apart : ∀ c, p c = true → q c = false) (rest : List Char) :
    ∀ c ∈ (text ++ rest).head?, q c = false := by
  intro c first
  rw [List.head?_append_of_ne_nil _ word.some] at first
  exact apart c (word.all c (List.mem_of_head? first))

/-- A word has no character of another class. -/
theorem Word.not_mem {p : Char → Bool} {text : List Char} (word : Word p text) {c : Char}
    (refused : p c = false) : c ∉ text :=
  fun present => Bool.eq_false_iff.mp refused (word.all c present)

section Span

variable {α : Type} {p : α → Bool}

/-- What is left without the characters of a class at the beginning begins with none of them. -/
theorem head?_dropWhile (text : List α) :
    ∀ c ∈ (text.dropWhile p).head?, p c = false := by
  intro c first
  have refused := List.head?_dropWhile_not p text
  rw [first] at refused
  exact refused

/-- A text that begins with no character of a class has none of them to leave out. -/
theorem dropWhile_eq_self {text : List α}
    (refused : ∀ c ∈ text.head?, p c = false) : text.dropWhile p = text := by
  cases text with
  | nil => rfl
  | cons c rest => exact List.dropWhile_cons_of_neg (Bool.eq_false_iff.mp (refused c rfl))

/-- The characters of a class at the beginning are those before the first other one. -/
theorem span_eq_iff {text front back : List α} :
    text.takeWhile p = front ∧ text.dropWhile p = back ↔
      (∀ c ∈ front, p c = true) ∧ (∀ c ∈ back.head?, p c = false) ∧ text = front ++ back := by
  constructor
  · rintro ⟨rfl, rfl⟩
    exact ⟨fun c => List.mem_takeWhile_imp, head?_dropWhile text,
      List.takeWhile_append_dropWhile.symm⟩
  · rintro ⟨taken, refused, rfl⟩
    have left : (front ++ back).dropWhile p = back := by
      rw [List.dropWhile_append_of_pos taken, dropWhile_eq_self refused]
    have whole : (front ++ back).takeWhile p ++ back = front ++ back := by
      conv_rhs => rw [← List.takeWhile_append_dropWhile (p := p) (l := front ++ back), left]
    exact ⟨List.append_cancel_right whole, left⟩

/-- Two texts that are cut where a class of characters ends have the same pieces. -/
theorem span_unique {front back other rest : List α}
    (same : front ++ back = other ++ rest) (taken : ∀ c ∈ front, p c = true)
    (ends : ∀ c ∈ back.head?, p c = false) (otherTaken : ∀ c ∈ other, p c = true)
    (otherEnds : ∀ c ∈ rest.head?, p c = false) : front = other ∧ back = rest := by
  obtain ⟨first, second⟩ := span_eq_iff.mpr ⟨taken, ends, rfl⟩
  obtain ⟨third, fourth⟩ := span_eq_iff.mpr ⟨otherTaken, otherEnds, same⟩
  exact ⟨first.symm.trans third, second.symm.trans fourth⟩

/-- Two texts that are cut at the first of some character have the same pieces. -/
theorem cut_unique [DecidableEq α] {front back other rest : List α} {c : α}
    (same : front ++ c :: back = other ++ c :: rest) (first : c ∉ front) (otherFirst : c ∉ other) :
    front = other ∧ back = rest := by
  have taken {text : List α} (without : c ∉ text) : ∀ d ∈ text, decide (d ≠ c) = true :=
    fun d present => decide_eq_true fun found => without (found ▸ present)
  have ends (text : List α) : ∀ d ∈ (c :: text).head?, decide (d ≠ c) = false :=
    fun d found => decide_eq_false (not_not.mpr (Option.some.inj found).symm)
  obtain ⟨left, right⟩ := span_unique same (taken first) (ends back) (taken otherFirst) (ends rest)
  exact ⟨left, (List.cons.inj right).2⟩

end Span

/-- Trimming leaves a text without white space at its ends. -/
theorem trimmed_trim (text : List Char) : Trimmed (trim text) := by
  constructor
  · intro c first
    obtain ⟨dropped, split⟩ := List.rdropWhile_prefix isBlank (l := text.dropWhile isBlank)
    refine head?_dropWhile text c ?_
    rw [← split]
    exact List.mem_head?_append_of_mem_head? first
  · intro c last
    rw [trim, trimEnd, List.getLast?_reverse] at last
    exact head?_dropWhile _ c last

/-- A text without white space at its ends is left as it is. -/
theorem trim_eq_self {text : List Char} (trimmed : Trimmed text) : trim text = text := by
  have reversed : text.reverse.dropWhile isBlank = text.reverse :=
    dropWhile_eq_self (by rw [List.head?_reverse]; exact trimmed.last)
  rw [trim, dropWhile_eq_self trimmed.head, trimEnd, reversed, List.reverse_reverse]

/-- Nothing is left of a text without the white space at its ends if and only if it has nothing
else. -/
theorem trim_eq_nil_iff (text : List Char) : trim text = [] ↔ Blank text := by
  have none : text.dropWhile isBlank = [] ↔ Blank text := List.dropWhile_eq_nil_iff
  rw [trim, trimEnd, List.reverse_eq_nil_iff, List.dropWhile_eq_nil_iff, ← none]
  constructor
  · intro blank
    cases left : text.dropWhile isBlank with
    | nil => rfl
    | cons c rest =>
      have shown := head?_dropWhile text c (by rw [left]; rfl)
      rw [blank c (by simp [left])] at shown
      contradiction
  · intro left
    rw [left]
    exact List.forall_mem_nil _

/-- The first line ends at the first line feed. -/
theorem linesAfter_append {line : List Char} (single : '\n' ∉ line) (read rest : List Char) :
    linesAfter read (line ++ '\n' :: rest) =
      finishLine (line.reverse ++ read) :: linesAfter [] rest := by
  induction line generalizing read with
  | nil => rfl
  | cons c line later =>
    have different : c ≠ '\n' := fun same => single (same ▸ List.mem_cons_self)
    have single : '\n' ∉ line := fun present => single (List.mem_cons_of_mem c present)
    rw [List.cons_append, linesAfter, later single (c :: read), List.reverse_cons,
      List.append_assoc, List.singleton_append]
    exact different

/-- A line without a carriage return at its end is kept whole. -/
theorem lines_append {line : List Char} (single : '\n' ∉ line)
    (no_return : line.getLast? ≠ some '\r') (rest : List Char) :
    lines (line ++ '\n' :: rest) = line :: lines rest := by
  have whole : finishLine line.reverse = line := by
    rw [← List.head?_reverse] at no_return
    unfold finishLine
    split
    · next found => simp [found] at no_return
    · exact List.reverse_reverse line
  rw [lines, linesAfter_append single, List.append_nil, whole, lines]

end Laminar.Text
