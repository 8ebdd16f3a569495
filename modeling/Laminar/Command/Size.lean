import Laminar.Numeral
import Laminar.Span
import Laminar.Text.Blank
import Laminar.Text.Quoted

/-!
# Sizes

The size of a file as it is given to a command: a 64-bit number in decimal, or in hexadecimal
after a mark, with white space around it.
-/

namespace Laminar.Command

/-- A text that is no size, and why. -/
structure SizeFault where
  /-- The text without the white space around it. -/
  text : String
  /-- Why it is no size. -/
  fault : Numeral.Fault
deriving DecidableEq

/-- The wording of a fault. -/
def SizeFault.message (fault : SizeFault) : String :=
  "invalid size " ++ Text.quote fault.text ++ ": " ++ fault.fault.message

/-- The number that a trimmed text denotes. -/
def readSize (text : List Char) : Except Numeral.Fault UInt64 :=
  match Numeral.withoutHexMark? text with
  | some digits => Numeral.read 16 digits
  | none => Numeral.read 10 text

/-- The size that a text denotes. -/
def size (text : String) : Except SizeFault UInt64 :=
  let trimmed := Text.trim text.toList
  (readSize trimmed).mapError fun fault => ⟨String.ofList trimmed, fault⟩

end Laminar.Command
