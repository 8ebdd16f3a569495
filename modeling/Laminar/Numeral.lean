/-!
# Numerals

Reading and writing unsigned 64-bit numbers in a positional base. A numeral is read one
character at a time, and the first character that cannot be accepted decides the fault: a
character that is no digit counts before an overflow at the same place. Writing uses the
fewest digits.
-/

namespace Laminar.Numeral

/-- The first number that no longer fits in 64 bits. -/
def wordLimit : Nat := UInt64.size

/-- Why a text is not a 64-bit numeral. -/
inductive Fault
  /-- There is no character to read. -/
  | empty
  /-- A character is not a digit of the base. -/
  | badDigit
  /-- The value needs more than 64 bits. -/
  | tooLarge
deriving DecidableEq

/-- The wording of a fault. -/
def Fault.message : Fault → String
  | .empty => "cannot parse integer from empty string"
  | .badDigit => "invalid digit found in string"
  | .tooLarge => "number too large to fit in target type"

/-- The value of an ASCII digit or letter, letters counting from ten in either case. -/
def digitValue? (c : Char) : Option Nat :=
  if '0' ≤ c ∧ c ≤ '9' then some (c.toNat - '0'.toNat)
  else if 'a' ≤ c ∧ c ≤ 'z' then some (c.toNat - 'a'.toNat + 10)
  else if 'A' ≤ c ∧ c ≤ 'Z' then some (c.toNat - 'A'.toNat + 10)
  else none

/-- The value of a character as a digit of `base`. -/
def digit? (base : Nat) (c : Char) : Option Nat :=
  (digitValue? c).filter (· < base)

/-- The number that starts as `value` and goes on with the digits of `text`. -/
def extend (base value : Nat) : List Char → Except Fault Nat
  | [] => .ok value
  | c :: rest =>
    match digit? base c with
    | none => .error .badDigit
    | some d =>
      if value * base + d < wordLimit then extend base (value * base + d) rest
      else .error .tooLarge

/-- The numeral in `text`: an optional plus sign and at least one digit. -/
def readNat (base : Nat) : List Char → Except Fault Nat
  | [] => .error .empty
  | ['+'] => .error .badDigit
  | '+' :: digits => extend base 0 digits
  | digits => extend base 0 digits

/-- The 64-bit number that a numeral denotes. -/
def read (base : Nat) (text : List Char) : Except Fault UInt64 :=
  (readNat base text).map Nat.toUInt64

/-- The text without one leading mark of a hexadecimal number, if it has one. -/
def withoutHexMark? : List Char → Option (List Char)
  | '0' :: 'x' :: rest => some rest
  | '0' :: 'X' :: rest => some rest
  | _ => none

/-- The digits of `n` in `base`, most significant first; a base below two is not expanded. -/
def digits (base n : Nat) : List Nat :=
  if _h : base < 2 ∨ n < base then [n]
  else digits base (n / base) ++ [n % base]
termination_by n
decreasing_by exact Nat.div_lt_self (by omega) (by omega)

/-- The character for a digit, letters in upper case. -/
def upperDigit (d : Nat) : Char :=
  if d < 10 then Char.ofNat ('0'.toNat + d) else Char.ofNat ('A'.toNat + (d - 10))

/-- The character for a digit, letters in lower case. -/
def lowerDigit (d : Nat) : Char :=
  if d < 10 then Char.ofNat ('0'.toNat + d) else Char.ofNat ('a'.toNat + (d - 10))

/-- A number in decimal. -/
def decimal (n : Nat) : String :=
  String.ofList ((digits 10 n).map upperDigit)

/-- The characters of a number in hexadecimal, upper case, without a mark. -/
def upperHexDigits (n : Nat) : List Char :=
  (digits 16 n).map upperDigit

/-- A number in hexadecimal, lower case, without a mark. -/
def lowerHexDigits (n : Nat) : List Char :=
  (digits 16 n).map lowerDigit

/-- A number in marked hexadecimal, digits in upper case. -/
def upperHex (n : Nat) : String :=
  String.ofList ('0' :: 'x' :: upperHexDigits n)

/-- A number in marked hexadecimal, digits in lower case. -/
def lowerHex (n : Nat) : String :=
  String.ofList ('0' :: 'x' :: lowerHexDigits n)

end Laminar.Numeral
