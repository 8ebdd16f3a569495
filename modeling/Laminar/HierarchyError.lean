import Laminar.Tag
import Laminar.Text.Quoted

/-!
# Errors of tags and hierarchies

Why a text is no list of tags, and why a list of tags has no hierarchy. Each error carries its
cause; the wording is one function of the cause.
-/

namespace Laminar

/-- Why a line is no tag. -/
inductive LineFault
  /-- The line does not have the parts of a tag in their places. -/
  | shape
  /-- An end of the span is not a 64-bit number in hexadecimal. -/
  | offset (text : String) (fault : Numeral.Fault)
deriving DecidableEq

/-- The wording of a line's fault. -/
def LineFault.message : LineFault → String
  | .shape => "expected \"[<begin>,<end>) <kind> <description>\""
  | .offset text fault => "bad offset " ++ Text.quote text ++ ": " ++ fault.message

/-- Why a text or a list of tags has no hierarchy. -/
inductive HierarchyError
  /-- A tag that holds no byte where such tags are refused. -/
  | degenerate (index : Nat) (span : Span) (description : String)
  /-- Two tags overlap and neither encloses the other. -/
  | crossing (first second : Tag)
  /-- A tag does not lie within the bounds. -/
  | outOfBounds (index : Nat) (span bounds : Span)
  /-- A line that is no tag, with its number and its whole content. -/
  | malformedLine (line : Nat) (content : String) (fault : LineFault)
deriving DecidableEq

/-- The wording of an error. -/
def HierarchyError.message : HierarchyError → String
  | .degenerate index span description =>
    "degenerate interval: tag #" ++ Numeral.decimal index ++ " [" ++
      Numeral.lowerHex span.start.toNat ++ "," ++ Numeral.lowerHex span.stop.toNat ++ ") " ++
      description
  | .crossing first second =>
    "non-laminar input: " ++ first.text ++ " partially overlaps " ++ second.text
  | .outOfBounds index span bounds =>
    "tag #" ++ Numeral.decimal index ++ " " ++ span.text ++ " lies outside of " ++ bounds.text
  | .malformedLine line content fault =>
    "malformed tag line " ++ Numeral.decimal line ++ ": " ++ fault.message ++ ": " ++
      Text.quote content

end Laminar
