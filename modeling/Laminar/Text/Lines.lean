/-!
# Lines

A line feed ends a line, and one carriage return just before it belongs to the ending. Text
after the last line feed is a line of its own unless it is empty; a carriage return at its end
is part of it.
-/

namespace Laminar.Text

/-- A finished line, given in reverse, without a carriage return at its end. -/
def finishLine : List Char → List Char
  | '\r' :: before => before.reverse
  | line => line.reverse

/-- The lines of a text of which `read`, in reverse, is the part of the first line read so far. -/
def linesAfter (read : List Char) : List Char → List (List Char)
  | [] => if read.isEmpty then [] else [read.reverse]
  | '\n' :: rest => finishLine read :: linesAfter [] rest
  | c :: rest => linesAfter (c :: read) rest

/-- The lines of a text, without their endings. -/
def lines (text : List Char) : List (List Char) :=
  linesAfter [] text

end Laminar.Text
