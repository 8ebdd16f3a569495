import Laminar.Kind
import Laminar.Span

/-!
# Tags

A tag says what the bytes of a span are. Its written form is one line: the span, the code of
the kind and, unless it is empty, the description, with single spaces between them.
-/

namespace Laminar

/-- A labelled span of bytes. -/
structure Tag where
  /-- The bytes that the tag is about. -/
  span : Span
  /-- What the bytes hold. -/
  kind : Kind
  /-- Free text about the bytes. -/
  description : String
deriving DecidableEq

namespace Tag

/-- A tag whose bytes have no further structure. -/
def raw (start stop : UInt64) (description : String) : Tag :=
  ⟨⟨start, stop⟩, .raw, description⟩

/-- The kind of a tag and, unless it is empty, its description. -/
def caption (kind : Kind) (description : String) : String :=
  if description = "" then kind.code else kind.code ++ " " ++ description

/-- The written form of a tag. -/
def text (tag : Tag) : String :=
  tag.span.text ++ " " ++ caption tag.kind tag.description

/-- The written form of a list of tags, one on a line. -/
def transcript (tags : List Tag) : String :=
  String.join (tags.map fun tag => tag.text ++ "\n")

end Tag

end Laminar
