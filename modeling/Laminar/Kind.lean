/-!
# Kinds

What the bytes of a tag hold. Integers of fixed width are written with two characters, a byte
order and a letter that is upper case for unsigned numbers; a code that names no kind is kept
as it is.
-/

namespace Laminar

/-- The order of the bytes of an integer. -/
inductive ByteOrder
  | little
  | big
deriving DecidableEq

/-- The character that stands for a byte order. -/
def ByteOrder.sigil : ByteOrder → Char
  | .little => '<'
  | .big => '>'

/-- What the bytes of a tag hold. -/
inductive Kind
  /-- An integer of `width` bytes. -/
  | integer (width : UInt8) (signed : Bool) (order : ByteOrder)
  /-- Bytes without further structure. -/
  | raw
  /-- No content of its own. -/
  | nothing
  /-- Bytes that no tag claims. -/
  | fragment
  /-- A code that names no other kind, kept as written. -/
  | verbatim (code : String)
deriving DecidableEq

namespace Kind

/-- The byte order that a character stands for. -/
def order? : Char → Option ByteOrder
  | '<' => some .little
  | '>' => some .big
  | _ => none

/-- The character of a byte order stands for it. -/
@[simp]
theorem order?_sigil (order : ByteOrder) : order? order.sigil = some order := by
  cases order <;> rfl

/-- The width and sign that a letter stands for. -/
def integer? : Char → Option (UInt8 × Bool)
  | 'B' => some (1, false)
  | 'b' => some (1, true)
  | 'H' => some (2, false)
  | 'h' => some (2, true)
  | 'I' => some (4, false)
  | 'i' => some (4, true)
  | 'Q' => some (8, false)
  | 'q' => some (8, true)
  | _ => none

/-- The integer kind that a code of two characters names. -/
def integerOfCode? : List Char → Option Kind
  | [sigil, letter] => do
    let order ← order? sigil
    let (width, signed) ← integer? letter
    return .integer width signed order
  | _ => none

/-- The kind that a code names; every code names one. -/
def ofCode (code : String) : Kind :=
  if code = "raw" then .raw
  else if code = "none" then .nothing
  else if code = "fragment" then .fragment
  else (integerOfCode? code.toList).getD (.verbatim code)

/-- The letter for an integer; widths other than one, two and four share the letter of eight. -/
def letter (width : UInt8) (signed : Bool) : Char :=
  match width, signed with
  | 1, false => 'B'
  | 1, true => 'b'
  | 2, false => 'H'
  | 2, true => 'h'
  | 4, false => 'I'
  | 4, true => 'i'
  | _, false => 'Q'
  | _, true => 'q'

/-- The code that a kind is written with. -/
def code : Kind → String
  | .integer width signed order => String.ofList [order.sigil, letter width signed]
  | .raw => "raw"
  | .nothing => "none"
  | .fragment => "fragment"
  | .verbatim code => code

/-- The number of bytes of a value, for kinds that fix it. -/
def width? : Kind → Option UInt64
  | .integer width _ _ => some width.toUInt64
  | _ => none

end Kind

end Laminar
