/-!
# Readers

A reader takes something from the beginning of a text and leaves what follows it. Repetition is
bounded by the length of the text: every repeated piece has at least one character.
-/

namespace Laminar.Toml

/-- What a reader finds at the beginning of a text, and the rest of the text. -/
abbrev Reader (α : Type) :=
  List Char → Option (α × List Char)

namespace Reader

variable {α : Type}

/-- The given characters. -/
def literal (expected : List Char) : Reader Unit := fun text =>
  if expected.isPrefixOf text then some ((), text.drop expected.length) else none

/-- One character of a class. -/
def one (p : Char → Bool) : Reader Char
  | [] => none
  | c :: rest => if p c then some (c, rest) else none

/-- The longest run of a class, at least one character. -/
def many1 (p : Char → Bool) : Reader (List Char) := fun text =>
  match text.takeWhile p with
  | [] => none
  | found => some (found, text.dropWhile p)

/-- The first of two readers that finds something. -/
def orElse (first second : Reader α) : Reader α := fun text =>
  match first text with
  | some found => some found
  | none => second text

/-- Pieces up to an end, at most `limit` of them, joined together with what the end stands for. -/
def pieces (limit : Nat) (ending piece : Reader (List Char)) : Reader (List Char) := fun text =>
  match limit with
  | 0 => none
  | limit + 1 =>
    match ending text with
    | some found => some found
    | none => do
      let (start, rest) ← piece text
      let (more, rest) ← pieces limit ending piece rest
      return (start ++ more, rest)

/-- Items separated by a character, at least one and at most `limit`. A separator that no item
follows is left in the text. -/
def separated (limit : Nat) (separator : Char) (item : Reader α) : Reader (List α) := fun text => do
  let (first, rest) ← item text
  match limit with
  | 0 => return ([first], rest)
  | limit + 1 =>
    match literal [separator] rest with
    | none => return ([first], rest)
    | some (_, after) =>
      match separated limit separator item after with
      | some (more, rest) => return (first :: more, rest)
      | none => return ([first], rest)

end Reader

/-! ## Characters -/

/-- A space or a tab. -/
def isSpace (c : Char) : Bool :=
  c == ' ' || c == '\t'

/-- A character that may stand anywhere in a line: no control character other than the tab. -/
def isPlain (c : Char) : Bool :=
  c == '\t' || (0x20 ≤ c.toNat && c.toNat != 0x7F)

/-- A text without the spaces and tabs at its beginning. -/
def skipSpace (text : List Char) : List Char :=
  text.dropWhile isSpace

/-- A text without the spaces, tabs and line ends at its beginning. -/
def skipLines : List Char → List Char
  | '\n' :: rest => skipLines rest
  | '\r' :: '\n' :: rest => skipLines rest
  | c :: rest => if isSpace c then skipLines rest else c :: rest
  | [] => []

/-- A line feed, with or without a carriage return before it. -/
def newline : Reader Unit
  | '\n' :: rest => some ((), rest)
  | '\r' :: '\n' :: rest => some ((), rest)
  | _ => none

/-- The end of a line or of the text. -/
def lineEnd : Reader Unit
  | [] => some ((), [])
  | text => newline text

/-- A text without the comment at its beginning, if it has one. -/
def skipComment : List Char → List Char
  | '#' :: rest => rest.dropWhile isPlain
  | text => text

/-- What may follow a statement on its line: spaces and a comment. -/
def lineTail : Reader Unit := fun text =>
  lineEnd (skipComment (skipSpace text))

end Laminar.Toml
