import Laminar.Numeral
import Laminar.Toml.Reader

/-!
# Numbers and dates of a TOML document

Integers have 64 bits with sign, floating-point numbers may not overflow, and a date has to be
one of the calendar. Underscores may stand between digits.
-/

namespace Laminar.Toml.Number

/-- The value of digits in a base. -/
def valueOf (base : Nat) (digits : List Char) : Nat :=
  digits.foldl (fun value c => value * base + (Numeral.digit? base c).getD 0) 0

/-- A character is a digit of a base. -/
def isDigit (base : Nat) (c : Char) : Bool :=
  (Numeral.digit? base c).isSome

/-- Digits of which each after the first may have an underscore before it, without these. -/
def moreDigits (base : Nat) : List Char → List Char × List Char
  | '_' :: c :: rest =>
    if isDigit base c then
      let (digits, rest) := moreDigits base rest
      (c :: digits, rest)
    else ([], '_' :: c :: rest)
  | c :: rest =>
    if isDigit base c then
      let (digits, rest) := moreDigits base rest
      (c :: digits, rest)
    else ([], c :: rest)
  | [] => ([], [])

/-- Digits with underscores between them, without the underscores. -/
def digits (base : Nat) : Reader (List Char)
  | c :: rest =>
    if isDigit base c then
      let (digits, rest) := moreDigits base rest
      some (c :: digits, rest)
    else none
  | [] => none

/-- A sign, if there is one; the answer says whether it is a minus sign. -/
def sign : List Char → Bool × List Char
  | '-' :: rest => (true, rest)
  | '+' :: rest => (false, rest)
  | text => (false, text)

/-- The digits of a decimal number: a zero stands alone. -/
def decimalDigits : Reader (List Char)
  | '0' :: rest => some (['0'], rest)
  | text => digits 10 text

/-- A decimal number with or without sign. -/
def decimal : Reader (Bool × List Char) := fun text =>
  let (negative, unsigned) := sign text
  (decimalDigits unsigned).map fun (found, rest) => ((negative, found), rest)

/-- A number fits in 64 bits with sign. -/
def fits (n : Int) : Bool :=
  Int64.minValue.toInt ≤ n && n ≤ Int64.maxValue.toInt

/-- An integer, if it fits. -/
def integer : Reader Int := fun text => do
  let (value, rest) ← match text with
    | '0' :: 'x' :: after => (digits 16 after).map fun (found, rest) =>
      ((valueOf 16 found : Int), rest)
    | '0' :: 'o' :: after => (digits 8 after).map fun (found, rest) =>
      ((valueOf 8 found : Int), rest)
    | '0' :: 'b' :: after => (digits 2 after).map fun (found, rest) =>
      ((valueOf 2 found : Int), rest)
    | _ => (decimal text).map fun ((negative, found), rest) =>
      let size : Int := valueOf 10 found
      (if negative then -size else size, rest)
  if fits value then return (value, rest) else none

/-! ## Floating-point numbers -/

/-- The digits after a decimal point. -/
def fraction : Reader (List Char)
  | '.' :: rest => digits 10 rest
  | _ => none

/-- An exponent of ten. -/
def exponent : Reader Int
  | e :: text =>
    if e = 'e' ∨ e = 'E' then
      let (negative, unsigned) := sign text
      (digits 10 unsigned).map fun (found, rest) =>
        let size : Int := valueOf 10 found
        (if negative then -size else size, rest)
    else none
  | [] => none

/-- The least number that rounds to infinity in binary floating point of 64 bits. -/
def overflowLimit : Nat :=
  Nat.pow 2 1024 - Nat.pow 2 970

/-- A number with the decimal digits `mantissa`, times ten to the `scale`, rounds to infinity.
Powers that decide the question by their size alone are not computed. -/
def overflows (mantissa : List Char) (scale : Int) : Bool :=
  let value := valueOf 10 mantissa
  if value = 0 then false
  else if 400 < scale then true
  else if scale < -(mantissa.length : Int) then false
  else overflowLimit * Nat.pow 10 (-scale).toNat ≤ value * Nat.pow 10 scale.toNat

/-- A finite floating-point number: it has a fraction or an exponent and, unless it is negative,
does not overflow. -/
def finite : Reader Unit := fun text => do
  let ((negative, whole), rest) ← decimal text
  let (part, scale, rest) ← match fraction rest with
    | some (part, rest) =>
      match exponent rest with
      | some (scale, rest) => some (part, scale, rest)
      | none => some (part, 0, rest)
    | none => (exponent rest).map fun (scale, rest) => ([], scale, rest)
  if ! negative && overflows (whole ++ part) (scale - part.length) then none
  else return ((), rest)

/-- An infinity or a number that is none, with or without sign. -/
def special : Reader Unit := fun text =>
  let unsigned := (sign text).2
  Reader.orElse (Reader.literal ['i', 'n', 'f']) (Reader.literal ['n', 'a', 'n']) unsigned

/-- A floating-point number. -/
def float : Reader Unit :=
  Reader.orElse finite special

/-! ## Dates and times -/

/-- Exactly `width` decimal digits, as a number between `least` and `most`. -/
def fixed (width least most : Nat) : Reader Nat := fun text =>
  let found := text.take width
  if found.length = width ∧ found.all (isDigit 10) ∧ least ≤ valueOf 10 found ∧
      valueOf 10 found ≤ most then
    some (valueOf 10 found, text.drop width)
  else none

/-- The number of days of a month. -/
def daysIn (year month : Nat) : Nat :=
  if month = 2 then
    if year % 4 = 0 ∧ (year % 100 ≠ 0 ∨ year % 400 = 0) then 29 else 28
  else if month = 4 ∨ month = 6 ∨ month = 9 ∨ month = 11 then 30
  else 31

/-- A date of the calendar. -/
def date : Reader Unit := fun text => do
  let (year, rest) ← fixed 4 0 9999 text
  let (_, rest) ← Reader.literal ['-'] rest
  let (month, rest) ← fixed 2 1 12 rest
  let (_, rest) ← Reader.literal ['-'] rest
  let (_, rest) ← fixed 2 1 (daysIn year month) rest
  return ((), rest)

/-- The digits after the seconds, if there are any. -/
def secondFraction : List Char → List Char
  | '.' :: c :: rest => if isDigit 10 c then rest.dropWhile (isDigit 10) else '.' :: c :: rest
  | text => text

/-- A time of day; the last minute can have a second more. -/
def time : Reader Unit := fun text => do
  let (_, rest) ← fixed 2 0 23 text
  let (_, rest) ← Reader.literal [':'] rest
  let (_, rest) ← fixed 2 0 59 rest
  let (_, rest) ← Reader.literal [':'] rest
  let (_, rest) ← fixed 2 0 60 rest
  return ((), secondFraction rest)

/-- The distance of a local time from the universal one. -/
def offset : Reader Unit
  | c :: text =>
    if c = 'Z' ∨ c = 'z' then some ((), text)
    else if c = '+' ∨ c = '-' then do
      let (_, rest) ← fixed 2 0 23 text
      let (_, rest) ← Reader.literal [':'] rest
      let (_, rest) ← fixed 2 0 59 rest
      return ((), rest)
    else none
  | [] => none

/-- The rest of a text after a part that need not be there. -/
def skip (part : Reader Unit) (text : List Char) : List Char :=
  match part text with
  | some (_, rest) => rest
  | none => text

/-- The time of day after a date and what stands between the two. -/
def timeAfterDate : Reader Unit
  | c :: text =>
    if c = 'T' ∨ c = 't' ∨ c = ' ' then
      (time text).map fun (_, rest) => ((), skip offset rest)
    else none
  | [] => none

/-- A date, a time or both. -/
def dateTime : Reader Unit := fun text =>
  match date text with
  | some (_, rest) => some ((), skip timeAfterDate rest)
  | none => time text

end Laminar.Toml.Number
