import Laminar.Proofs.Numeral
import Laminar.Toml.Text

/-!
# Strings that are read back

Every text is read back as it is written, in whichever style (`read_write`). Each character is
written in a way that is read back and cannot be mistaken for the end of the string (`Chunk`). Only
quotes in a string on several lines may stand as they are: there are never more than two in a row,
and those at the very end are told from the three that end the string (`Spelled`).
-/

namespace Laminar.Toml

/-- A text is made of pieces up to an end: what they stand for, and what follows the end. -/
inductive Pieces (ending piece : Reader (List Char)) :
    List Char → List Char → List Char → Prop
  | ends {text found rest} (ends : ending text = some (found, rest)) :
      Pieces ending piece text found rest
  | step {text start next more rest} (goes_on : ending text = none)
      (first : piece text = some (start, next)) (shorter : next.length < text.length)
      (after : Pieces ending piece next more rest) :
      Pieces ending piece text (start ++ more) rest

/-- Pieces up to an end are read, if at least as many are allowed as the text has characters. -/
theorem Pieces.pieces_eq {ending piece : Reader (List Char)} {text found rest : List Char}
    (pieces : Pieces ending piece text found rest) {limit : Nat} (enough : text.length < limit) :
    Reader.pieces limit ending piece text = some (found, rest) := by
  induction pieces generalizing limit with
  | ends ends =>
    obtain ⟨limit, rfl⟩ := Nat.exists_eq_add_of_lt enough
    simp [Reader.pieces, ends]
  | step goes_on first shorter after later =>
    obtain ⟨limit, rfl⟩ := Nat.exists_eq_add_of_lt enough
    simp [Reader.pieces, goes_on, first, later (Nat.lt_of_lt_of_le shorter (Nat.le_add_right _ _))]

namespace Text

variable {quote c : Char} {text rest : List Char}

/-! ## Characters -/

/-- What is written for a character: pieces are read as the character, and it does not begin with
the quote that ends the string. -/
structure Chunk (quote : Char) (piece : Reader (List Char)) (c : Char) (written : List Char) :
    Prop where
  /-- There is a first character, and it is no quote. -/
  apart : ∃ first tail, written = first :: tail ∧ first ≠ quote
  /-- The character is read back. -/
  reads : ∀ rest, piece (written ++ rest) = some ([c], rest)

/-- After what is written for a character, the text is shorter. -/
theorem Chunk.length_lt {piece : Reader (List Char)} {written : List Char}
    (chunk : Chunk quote piece c written) (rest : List Char) :
    rest.length < (written ++ rest).length := by
  obtain ⟨first, tail, rfl, -⟩ := chunk.apart
  rw [List.length_append, List.length_cons]
  omega

/-- A character has a code that stands for it. -/
theorem charOfCode?_toNat (c : Char) : charOfCode? c.toNat = some c := by
  have valid : c.toNat.isValidChar := c.valid
  rw [charOfCode?, if_pos valid, Char.ofNat_toNat]

/-- Four hexadecimal digits are the code point of the character that they were written for. -/
theorem codePoint_fourDigits (small : c.toNat < 65536) (rest : List Char) :
    codePoint 4 (fourDigits c.toNat ++ rest) = some ([c], rest) := by
  have digit (n : Nat) : Numeral.digit? 16 (Numeral.upperDigit (n % 16)) = some (n % 16) :=
    Numeral.digit?_upperDigit (Nat.mod_lt n (by decide)) (by decide)
  have value : (((0 * 16 + c.toNat / 4096 % 16) * 16 + c.toNat / 256 % 16) * 16 +
      c.toNat / 16 % 16) * 16 + c.toNat % 16 = c.toNat := by omega
  simp only [codePoint, fourDigits, List.map_cons, List.map_nil, List.cons_append, List.nil_append,
    List.take_succ_cons, List.take_zero, List.mapM_cons, List.mapM_nil, digit, Option.pure_def,
    Option.bind_eq_bind, Option.bind_some, List.length_cons, List.length_nil, List.foldl_cons,
    List.foldl_nil, value, charOfCode?_toNat, List.drop_succ_cons, List.drop_zero]
  rfl

/-- How a character may be written between double quotes. -/
inductive Writes (lines : Bool) (c : Char) : List Char → Prop
  | itself (basic : isBasic c = true) : Writes lines c [c]
  | lineFeed (several : lines = true) (feed : c = '\n') : Writes lines c ['\n']
  | escape {letter : Char} {digits : List Char}
      (visible : isSpace letter = false ∧ letter ≠ '\n' ∧ letter ≠ '\r')
      (reads : ∀ rest, Text.escape ('\\' :: letter :: digits ++ rest) = some ([c], rest)) :
      Writes lines c ('\\' :: letter :: digits)

/-- A character that is not plain has a small code point. -/
theorem toNat_lt_of_not_isPlain (hidden : isPlain c = false) : c.toNat < 65536 := by
  simp only [isPlain, Bool.or_eq_false_iff, Bool.and_eq_false_iff, decide_eq_false_iff_not,
    bne_eq_false_iff_eq] at hidden
  omega

/-- A letter that stands for a character after a backslash is no white space, and does not announce
a code point. -/
theorem apart_of_escaped? {letter : Char} (stands : escaped? letter = some c) :
    (isSpace letter = false ∧ letter ≠ '\n' ∧ letter ≠ '\r') ∧ letter ≠ 'u' ∧ letter ≠ 'U' := by
  unfold escaped? at stands
  split at stands <;> first | decide | contradiction

/-- A letter after a backslash is read as the character that it stands for. -/
theorem writes_letter {letter : Char} (lines : Bool) (stands : escaped? letter = some c) :
    Writes lines c ['\\', letter] := by
  obtain ⟨visible, short, long⟩ := apart_of_escaped? stands
  refine .escape visible fun rest => ?_
  simp only [List.cons_append, List.nil_append]
  unfold escape
  split <;> simp_all

/-- Every character but the quote is written in one of these ways. -/
theorem writes_writeChar (lines : Bool) (other : c ≠ '"') : Writes lines c (writeChar lines c) := by
  unfold writeChar
  split
  · next same => exact writes_letter lines (congrArg some same.symm)
  split
  · next same => exact writes_letter lines (congrArg some same.symm)
  split
  · next same =>
    cases lines with
    | false => exact writes_letter false (congrArg some same.symm)
    | true => exact .lineFeed rfl same
  split
  · next same => exact writes_letter lines (congrArg some same.symm)
  split
  · next same => exact writes_letter lines (congrArg some same.symm)
  split
  · next same => exact writes_letter lines (congrArg some same.symm)
  · next unslashed =>
    split
    · next plain => exact .itself (by simp [isBasic, plain, other, unslashed])
    · next hidden =>
      have small := toNat_lt_of_not_isPlain (Bool.eq_false_iff.mpr hidden)
      exact .escape (by decide) (codePoint_fourDigits small)

/-- What is written for a character begins neither with a quote nor, unless the character is a line
feed, with a line end. -/
theorem Writes.exists_cons {lines : Bool} {written : List Char} (writes : Writes lines c written) :
    ∃ first tail, written = first :: tail ∧
      first ≠ '"' ∧ first ≠ '\r' ∧ (first = '\n' → c = '\n') := by
  cases writes with
  | itself basic =>
    exact ⟨c, [], rfl, by rintro rfl; contradiction, by rintro rfl; contradiction, id⟩
  | lineFeed several feed => exact ⟨_, _, rfl, by decide, by decide, fun _ => feed⟩
  | escape => exact ⟨_, _, rfl, by decide, by decide, nofun⟩

/-- What is written for a character cannot be taken for the end of the string. -/
theorem Writes.apart {lines : Bool} {written : List Char} (writes : Writes lines c written) :
    ∃ first tail, written = first :: tail ∧ first ≠ '"' := by
  obtain ⟨first, tail, split, apart, -⟩ := writes.exists_cons
  exact ⟨first, tail, split, apart⟩

/-- Nothing but an escape begins with a backslash. -/
theorem not_isBasic_slash : isBasic '\\' = false := by decide

/-- What is written for a character on one line is read back. -/
theorem Writes.chunk {written : List Char} (writes : Writes false c written) :
    Chunk '"' (Reader.orElse (shown isBasic) Text.escape) c written := by
  refine ⟨writes.apart, fun rest => ?_⟩
  cases writes with
  | itself basic => simp [Reader.orElse, shown, Reader.one, basic]
  | lineFeed several => contradiction
  | escape _ reads =>
    rw [Reader.orElse, reads]
    simp [shown, Reader.one, not_isBasic_slash]

/-- An escape that does not begin with white space escapes no line end. -/
theorem escapedLineEnd_eq_none {letter : Char}
    (visible : isSpace letter = false ∧ letter ≠ '\n' ∧ letter ≠ '\r') (rest : List Char) :
    escapedLineEnd ('\\' :: letter :: rest) = none := by
  obtain ⟨visible, feed, back⟩ := visible
  have unbroken : newline (letter :: rest) = none := by
    unfold newline
    split <;> simp_all
  simp [escapedLineEnd, skipSpace, visible, unbroken]

/-- What is written for a character on several lines is read back. -/
theorem Writes.chunk_lines {written : List Char} (writes : Writes true c written) :
    Chunk '"' basicPiece c written := by
  refine ⟨writes.apart, fun rest => ?_⟩
  cases writes with
  | itself basic => simp [basicPiece, Reader.orElse, shown, Reader.one, basic]
  | lineFeed _ feed =>
    subst feed
    rfl
  | escape visible reads =>
    have unescaped := escapedLineEnd_eq_none visible
    simp only [List.cons_append] at reads
    simp [basicPiece, Reader.orElse, shown, Reader.one, not_isBasic_slash, unescaped, reads]

/-! ## Strings on one line -/

/-- Written characters are read up to the quote. -/
theorem pieces_flatMap {piece : Reader (List Char)} {written : Char → List Char}
    (chunks : ∀ c ∈ text, Chunk quote piece c (written c)) (rest : List Char) :
    Pieces (endQuote quote) piece (text.flatMap written ++ quote :: rest) text rest := by
  induction text with
  | nil => exact .ends (if_pos rfl)
  | cons c text later =>
    obtain ⟨chunk, chunks⟩ := List.forall_mem_cons.mp chunks
    obtain ⟨first, tail, split, apart⟩ := chunk.apart
    rw [List.flatMap_cons, List.append_assoc]
    refine .step ?_ (chunk.reads _) (chunk.length_lt _) (later chunks)
    rw [split]
    exact if_neg apart

/-- Where no quote may stand as it is, each is written with an escape. -/
theorem writeBasic_eq_flatMap (lines : Bool) (text : List Char) :
    writeBasic lines 0 0 text =
      text.flatMap fun c => if c = '"' then ['\\', '"'] else writeChar lines c := by
  induction text with
  | nil => rfl
  | cons c text later =>
    rw [writeBasic, List.flatMap_cons, later]
    split <;> rfl

/-- The inside of a basic string on one line is read back. -/
theorem pieces_writeBasic (text rest : List Char) :
    Pieces (endQuote '"') (Reader.orElse (shown isBasic) escape)
      (writeBasic false 0 0 text ++ '"' :: rest) text rest := by
  rw [writeBasic_eq_flatMap]
  refine pieces_flatMap (fun c _ => ?_) rest
  split
  · next same =>
    subst same
    exact (writes_letter false rfl).chunk
  · next other => exact (writes_writeChar false other).chunk

/-- The inside of a literal string on one line is read back. -/
theorem pieces_literal (literal : ∀ c ∈ text, isLiteral c = true) (rest : List Char) :
    Pieces (endQuote '\'') (shown isLiteral) (text ++ '\'' :: rest) text rest := by
  have chunks : ∀ c ∈ text, Chunk '\'' (shown isLiteral) c [c] := by
    intro c present
    have itself := literal c present
    refine ⟨⟨c, [], rfl, ?_⟩, fun rest => by simp [shown, Reader.one, itself]⟩
    rintro rfl
    contradiction
  have read := pieces_flatMap chunks rest
  rwa [List.flatMap_singleton'] at read

/-! ## Strings on several lines -/

/-- How a text is written between quotes that stand three in a row to end it, after `run` of them in
a row: they may stand as they are, but no more than two in a row. -/
inductive Spelled (quote : Char) (piece : Reader (List Char)) :
    Nat → List Char → List Char → Prop
  | nil {run} (few : run ≤ 2) : Spelled quote piece run [] []
  | quote {run text written} (few : run ≤ 2) (after : Spelled quote piece (run + 1) text written) :
      Spelled quote piece run (quote :: text) (quote :: written)
  | chunk {run c start text written} (few : run ≤ 2) (chunk : Chunk quote piece c start)
      (after : Spelled quote piece 0 text written) :
      Spelled quote piece run (c :: text) (start ++ written)

/-- Up to two quotes before the three that end a string belong to it. -/
theorem endQuotes_replicate {run : Nat} (few : run ≤ 2) (ends : ∀ c ∈ rest.head?, c ≠ quote) :
    endQuotes quote (List.replicate run quote ++ [quote, quote, quote] ++ rest) =
      some (List.replicate run quote, rest) := by
  obtain rfl | rfl | rfl : run = 0 ∨ run = 1 ∨ run = 2 := by omega
  · match rest, ends with
    | [], _ => simp [endQuotes]
    | [d], ends => simp [endQuotes, ends d rfl]
    | d :: e :: rest, ends => simp [endQuotes, ends d rfl]
  · match rest, ends with
    | [], _ => simp [endQuotes, List.replicate]
    | d :: rest, ends => simp [endQuotes, List.replicate, ends d rfl]
  · simp [endQuotes, List.replicate]

/-- Where less than three quotes stand in a row, the string does not end. -/
theorem endQuotes_eq_none (fewer : ¬ [quote, quote, quote] <+: text) :
    endQuotes quote text = none := by
  unfold endQuotes
  split
  · exact if_neg fun same => fewer ⟨_, congrArg (· ++ _) same.symm⟩
  · exact if_neg fun same => fewer ⟨_, congrArg (· ++ _) same.symm⟩
  · exact if_neg fun same => fewer ⟨[], congrArg (· ++ _) same.symm⟩
  · rfl

/-- A spelled text has nothing but quotes, less than three with those before it, or something else
stands before the third of them. -/
theorem Spelled.ends_or {piece : Reader (List Char)} {run : Nat} {written : List Char}
    (spelled : Spelled quote piece run text written) (follow : List Char) :
    (∃ count, run + count ≤ 2 ∧ text = List.replicate count quote ∧ written = text) ∨
      ∀ count, run + count = 3 → ¬ List.replicate count quote <+: written ++ follow := by
  induction spelled with
  | nil few => exact .inl ⟨0, few, rfl, rfl⟩
  | @quote run text written few after later =>
    rcases later with ⟨count, few, rfl, rfl⟩ | fewer
    · exact .inl ⟨count + 1, by omega, rfl, rfl⟩
    · refine .inr fun count three begins => ?_
      obtain ⟨count, rfl⟩ : ∃ less, count = less + 1 := ⟨count - 1, by omega⟩
      rw [List.replicate_succ, List.cons_append, List.cons_prefix_cons] at begins
      exact fewer count (by omega) begins.2
  | chunk few chunk after =>
    refine .inr fun count three begins => ?_
    obtain ⟨count, rfl⟩ : ∃ less, count = less + 1 := ⟨count - 1, by omega⟩
    obtain ⟨first, tail, rfl, apart⟩ := chunk.apart
    rw [List.replicate_succ, List.cons_append, List.cons_append, List.cons_prefix_cons] at begins
    exact apart begins.1.symm

/-- A spelled text is read up to the three quotes that end it. -/
theorem Spelled.pieces {piece : Reader (List Char)} {run : Nat} {written : List Char}
    (spelled : Spelled quote piece run text written)
    (itself : ∀ rest, piece (quote :: rest) = some ([quote], rest))
    (ends : ∀ c ∈ rest.head?, c ≠ quote) :
    Pieces (endQuotes quote) piece (written ++ ([quote, quote, quote] ++ rest)) text rest := by
  induction spelled with
  | nil => exact .ends (endQuotes_replicate (Nat.zero_le 2) ends)
  | @quote run text written few after later =>
    rcases (Spelled.quote few after).ends_or ([quote, quote, quote] ++ rest) with
      ⟨count, few, same, whole⟩ | fewer
    · rw [whole, same, ← List.append_assoc]
      exact .ends (endQuotes_replicate (by omega) ends)
    · refine .step (endQuotes_eq_none fun begins => fewer (3 - run) (by omega) ?_) (itself _)
        (Nat.lt_succ_self _) later
      have shorter : List.replicate (3 - run) quote <+: List.replicate 3 quote :=
        ⟨List.replicate run quote, by
          rw [List.replicate_append_replicate, Nat.sub_add_cancel (by omega)]⟩
      exact shorter.trans begins
  | chunk few chunk after later =>
    obtain ⟨first, tail, split, apart⟩ := chunk.apart
    rw [List.append_assoc]
    refine .step (endQuotes_eq_none fun begins => ?_) (chunk.reads _) (chunk.length_lt _) later
    rw [split, List.cons_append, List.cons_prefix_cons] at begins
    exact apart begins.1.symm

/-- The inside of a basic string on several lines is spelled. -/
theorem spelled_writeBasic {run : Nat} (few : run ≤ 2) (text : List Char) :
    Spelled '"' basicPiece run text (writeBasic true 2 run text) := by
  induction text generalizing run with
  | nil => exact .nil few
  | cons c text later =>
    rw [writeBasic]
    split
    · next same =>
      subst same
      split
      · next fewer => exact .quote few (later fewer)
      · exact .chunk few (writes_letter true rfl).chunk_lines (later (Nat.zero_le 2))
    · next other =>
      exact .chunk few (writes_writeChar true other).chunk_lines (later (Nat.zero_le 2))

/-- The longest run is no shorter than the present one. -/
theorem le_longestRun (quote : Char) (run : Nat) (text : List Char) :
    run ≤ longestRun quote run text := by
  induction text generalizing run with
  | nil => exact Nat.le_refl run
  | cons c text later =>
    rw [longestRun]
    split
    · exact Nat.le_of_succ_le (later (run + 1))
    · exact Nat.le_max_left _ _

/-- The inside of a literal string on several lines is spelled. -/
theorem spelled_literal {run : Nat} (few : longestRun '\'' run text ≤ 2)
    (plain : ∀ c ∈ text, needsEscape c = false) :
    Spelled '\'' literalPiece run text text := by
  have small := (le_longestRun _ _ _).trans few
  induction text generalizing run with
  | nil => exact .nil small
  | cons c text later =>
    obtain ⟨itself, others⟩ := List.forall_mem_cons.mp plain
    rw [longestRun] at few
    split at few
    · next same =>
      subst same
      exact .quote small (later few others ((le_longestRun _ _ _).trans few))
    · next other =>
      have after := (Nat.le_max_right _ _).trans few
      have chunk : Chunk '\'' literalPiece c [c] := by
        refine ⟨⟨c, [], rfl, other⟩, fun rest => ?_⟩
        by_cases feed : c = '\n'
        · subst feed
          rfl
        · have shows : isPlain c = true := by simpa [needsEscape, feed] using itself
          simp [literalPiece, Reader.orElse, shown, Reader.one, shows]
      exact .chunk small chunk (later after others (Nat.zero_le 2))

/-! ## Strings -/

/-- A string on one line does not begin with two quotes, unless a third follows it. -/
theorem not_prefix_of_pieces {piece : Reader (List Char)} {found : List Char}
    (pieces : Pieces (endQuote quote) piece text found rest)
    (ends : ∀ c ∈ rest.head?, c ≠ quote) : ¬ [quote, quote] <+: text := by
  rintro ⟨follow, rfl⟩
  cases pieces with
  | ends closed =>
    simp only [List.cons_append, List.nil_append, endQuote, if_pos, Option.some.injEq,
      Prod.mk.injEq] at closed
    exact ends quote (by rw [← closed.2]; rfl) rfl
  | step goes_on => simp [endQuote] at goes_on

/-- A text that does not begin with three quotes has a string on one line, if any. -/
theorem read_eq_readLine (single : ¬ [quote, quote] <+: text) :
    read (quote :: text) = readLine (quote :: text) := by
  unfold read
  split
  · next follow same =>
    obtain ⟨rfl, rfl⟩ := List.cons.inj same
    exact absurd ⟨follow, rfl⟩ single
  · next follow same =>
    obtain ⟨rfl, rfl⟩ := List.cons.inj same
    exact absurd ⟨follow, rfl⟩ single
  · rfl

/-- A line end after the opening quotes is skipped, so the inside of the string `text` may begin
with one only if one is written before it. -/
def Opens (text inside : List Char) : Prop :=
  ∀ first ∈ inside.head?, first ≠ '\r' ∧ (first = '\n' → '\n' ∈ text)

/-- Nothing but the line end that is written after the opening quotes is skipped. -/
theorem skipNewline_openingBreak {inside : List Char} (opens : Opens text inside) :
    skipNewline (openingBreak text ++ inside) = inside := by
  unfold openingBreak
  split
  · rfl
  · next single =>
    have unbroken : newline inside = none := by
      unfold newline
      split
      · exact absurd (List.contains_iff_mem.mpr ((opens _ rfl).2 rfl)) single
      · exact absurd rfl (opens _ rfl).1
      · rfl
    rw [List.nil_append, skipNewline, unbroken]

/-- The inside of a string on several lines is read after the line end that is skipped. -/
theorem pieces_skipNewline {ending piece : Reader (List Char)} {inside found : List Char}
    (opens : Opens text inside) (pieces : Pieces ending piece inside found rest) :
    Reader.pieces ((openingBreak text ++ inside).length + 1) ending piece
      (skipNewline (openingBreak text ++ inside)) = some (found, rest) := by
  rw [skipNewline_openingBreak opens]
  exact pieces.pieces_eq (by rw [List.length_append]; omega)

/-- A basic string on several lines begins with a line end only if the text does. -/
theorem opens_writeBasic (text follow : List Char) :
    Opens text (writeBasic true 2 0 text ++ '"' :: follow) := by
  cases text with
  | nil =>
    rintro _ ⟨⟩
    exact ⟨by decide, nofun⟩
  | cons c text =>
    rw [writeBasic]
    split
    · rintro _ ⟨⟩
      exact ⟨by decide, nofun⟩
    · next other =>
      obtain ⟨first, tail, written, -, unbroken, feed⟩ := (writes_writeChar true other).exists_cons
      rw [written]
      rintro _ ⟨⟩
      exact ⟨unbroken, fun same => feed same ▸ List.mem_cons_self⟩

/-- A literal string on several lines begins with a line end only if the text does. -/
theorem opens_literal (plain : ∀ c ∈ text, needsEscape c = false) (follow : List Char) :
    Opens text (text ++ '\'' :: follow) := by
  cases text with
  | nil =>
    rintro _ ⟨⟩
    exact ⟨by decide, nofun⟩
  | cons c text =>
    rintro _ ⟨⟩
    refine ⟨?_, fun same => same ▸ List.mem_cons_self⟩
    rintro rfl
    exact absurd (plain _ List.mem_cons_self) (by decide)

/-- A text is read back from a style that shows it, and from the basic styles in any case. -/
theorem read_writeIn {style : Style}
    (fits : shows text style = true ∨ style = .basic ∨ style = .basicLines)
    (ends : ∀ c ∈ rest.head?, c ≠ '"' ∧ c ≠ '\'') :
    read (writeIn text style ++ rest) = some (text, rest) := by
  have double : ∀ c ∈ rest.head?, c ≠ '"' := fun c head => (ends c head).1
  have lone : ∀ c ∈ rest.head?, c ≠ '\'' := fun c head => (ends c head).2
  cases style with
  | basic =>
    have pieces := pieces_writeBasic text rest
    have line := read_eq_readLine (not_prefix_of_pieces pieces double)
    rw [writeIn, List.append_assoc, List.append_assoc]
    exact line.trans (pieces.pieces_eq (Nat.lt_succ_self _))
  | literal =>
    obtain ⟨⟨plain, unquoted⟩, single⟩ :
        ((∀ c ∈ text, c ≠ '\n' → isPlain c = true) ∧ '\'' ∉ text) ∧ '\n' ∉ text := by
      simpa [shows, needsEscape] using fits
    have literal : ∀ c ∈ text, isLiteral c = true := by
      intro c present
      have shown := plain c present (ne_of_mem_of_not_mem present single)
      simpa [isLiteral, shown] using ne_of_mem_of_not_mem present unquoted
    have pieces := pieces_literal literal rest
    have line := read_eq_readLine (not_prefix_of_pieces pieces lone)
    rw [writeIn, List.append_assoc, List.append_assoc]
    exact line.trans (pieces.pieces_eq (Nat.lt_succ_self _))
  | basicLines =>
    have spelled := spelled_writeBasic (Nat.zero_le 2) text
    have pieces := spelled.pieces (fun _ => rfl) double
    simp only [writeIn, List.append_assoc]
    exact pieces_skipNewline (opens_writeBasic text _) pieces
  | literalLines =>
    obtain ⟨plain, few⟩ : (∀ c ∈ text, needsEscape c = false) ∧ longestRun '\'' 0 text ≤ 2 := by
      simpa [shows] using fits
    have pieces := (spelled_literal few plain).pieces (fun _ => rfl) lone
    simp only [writeIn, List.append_assoc]
    exact pieces_skipNewline (opens_literal plain _) pieces

/-- A text is written in a style that shows it, or else in a basic style. -/
theorem shows_styleOf (text : List Char) :
    shows text (styleOf text) = true ∨ styleOf text = .basic ∨ styleOf text = .basicLines := by
  unfold styleOf
  split
  · next found => exact .inl (List.find?_some found)
  · split
    · exact .inr (.inr rfl)
    · exact .inr (.inl rfl)

/-- Every text is read back as it is written, if no quote follows it. -/
theorem read_write (text : List Char) (ends : ∀ c ∈ rest.head?, c ≠ '"' ∧ c ≠ '\'') :
    read (write text ++ rest) = some (text, rest) :=
  read_writeIn (shows_styleOf text) ends

/-- A written text begins with a quote. -/
theorem exists_cons_of_write (text : List Char) :
    ∃ first tail, write text = first :: tail ∧ (first = '"' ∨ first = '\'') := by
  unfold write
  cases styleOf text with
  | basic => exact ⟨_, _, rfl, .inl rfl⟩
  | literal => exact ⟨_, _, rfl, .inr rfl⟩
  | basicLines => exact ⟨_, _, rfl, .inl rfl⟩
  | literalLines => exact ⟨_, _, rfl, .inr rfl⟩

end Text

end Laminar.Toml
