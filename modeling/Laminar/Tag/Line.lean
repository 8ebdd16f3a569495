import Laminar.HierarchyError
import Laminar.Text.Blank
import Laminar.Text.Lines

/-!
# Reading tags

A line of text is blank, a tag or malformed. A tag's line has, between optional white space, the
span's two ends in hexadecimal, the code of a kind and, after more white space, a description
without line feed. Each part ends where its class of characters ends, so a line is cut up in one
way only.
-/

namespace Laminar.Tag

/-- An ASCII letter or digit. -/
def isAlnum (c : Char) : Bool :=
  (Numeral.digitValue? c).isSome

/-- The parts of a line that has the shape of a tag. -/
structure LineParts where
  /-- The beginning of the span, as written. -/
  start : List Char
  /-- The end of the span, as written. -/
  stop : List Char
  /-- The code of the kind. -/
  code : List Char
  /-- The description, empty if there is none. -/
  description : List Char
deriving DecidableEq

/-- The expected character and then what follows it. -/
def expect? (c : Char) : List Char → Option (List Char)
  | d :: rest => if d = c then some rest else none
  | [] => none

/-- A word of the class `p`, not empty, and what follows it. -/
def word? (p : Char → Bool) (text : List Char) : Option (List Char × List Char) :=
  match text.takeWhile p with
  | [] => none
  | found => some (found, text.dropWhile p)

/-- What follows the white space at the beginning of a text. -/
def skipBlank (text : List Char) : List Char :=
  text.dropWhile Text.isBlank

/-- The description that the rest of a line holds. -/
def description? (text : List Char) : Option (List Char) :=
  let description := skipBlank text
  if '\n' ∈ description then none else some description

/-- Cuts a line without white space at its ends into the parts of a tag. -/
def LineParts.ofLine? (line : List Char) : Option LineParts := do
  let afterOpen ← expect? '[' line
  let (start, afterStart) ← word? isAlnum (skipBlank afterOpen)
  let afterComma ← expect? ',' (skipBlank afterStart)
  let (stop, afterStop) ← word? isAlnum (skipBlank afterComma)
  let afterClose ← expect? ')' (skipBlank afterStop)
  let (_, afterBlank) ← word? Text.isBlank afterClose
  let (code, afterCode) ← word? (! Text.isBlank ·) afterBlank
  let description ← description? afterCode
  return ⟨start, stop, code, description⟩

/-- An end of a span: hexadecimal digits, with or without the mark. -/
def readOffset (text : List Char) : Except LineFault UInt64 :=
  (Numeral.read 16 ((Numeral.withoutHexMark? text).getD text)).mapError
    (.offset (String.ofList text))

/-- The tag on a line without white space at its ends. -/
def ofTrimmed (line : List Char) : Except LineFault Tag :=
  match LineParts.ofLine? line with
  | none => .error .shape
  | some parts => do
    let start ← readOffset parts.start
    let stop ← readOffset parts.stop
    return ⟨⟨start, stop⟩, .ofCode (String.ofList parts.code), String.ofList parts.description⟩

/-- The tag on a line, if it is not blank. The line's number is for errors only. -/
def ofLine (number : Nat) (line : List Char) : Except HierarchyError (Option Tag) :=
  match Text.trim line with
  | [] => .ok none
  | trimmed =>
    ((ofTrimmed trimmed).map some).mapError (.malformedLine number (String.ofList line))

/-- The tags on lines that are numbered from `number` on. The first malformed line decides. -/
def ofLines (number : Nat) : List (List Char) → Except HierarchyError (List Tag)
  | [] => .ok []
  | line :: rest => do
    let found ← ofLine number line
    let later ← ofLines (number + 1) rest
    return found.toList ++ later

/-- The tags of a text, one on each line that is not blank. -/
def ofText (text : String) : Except HierarchyError (List Tag) :=
  ofLines 1 (Text.lines text.toList)

end Laminar.Tag
