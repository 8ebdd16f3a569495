import Laminar.Grove.Drawing
import Laminar.Nesting

/-!
# Coverage

The coverage of a file: its span with the nesting of the admitted tags below it. Where gaps are
filled, the children of every inner node tile the span of that node, because a fragment stands
for every run of bytes that no child claims. Admission looks at one tag at a time, in the order
of emission, and comes before any comparison between tags.
-/

namespace Laminar

/-- What becomes of a tag that holds no byte. -/
inductive DegeneratePolicy
  /-- The coverage fails. -/
  | reject
  /-- The tag is left out, with a warning. -/
  | skip
deriving DecidableEq

namespace Coverage

/-- The choices for a coverage. -/
structure Options where
  /-- Fragments stand for unclaimed bytes. -/
  fillGaps : Bool := true
  /-- What becomes of a tag that holds no byte. -/
  degenerate : DegeneratePolicy := .reject
deriving DecidableEq

/-- Where a segment comes from. -/
inductive Origin
  /-- The file itself. -/
  | file
  /-- The tag emitted at an index. -/
  | tag (index : Nat)
  /-- Bytes that no tag claims. -/
  | gap
deriving DecidableEq

/-- A node of a coverage. -/
structure Segment where
  /-- The bytes of the node. -/
  span : Span
  /-- What the bytes hold. -/
  kind : Kind
  /-- Free text about the bytes. -/
  description : String
  /-- Where the node comes from. -/
  origin : Origin
deriving DecidableEq

namespace Segment

/-- The node for a whole file. -/
def file (span : Span) : Segment :=
  ⟨span, .nothing, "", .file⟩

/-- The node for bytes that no tag claims. -/
def fragment (span : Span) : Segment :=
  ⟨span, .fragment, "", .gap⟩

/-- The node for a tag. -/
def ofEntry (entry : Entry) : Segment :=
  ⟨entry.tag.span, entry.tag.kind, entry.tag.description, .tag entry.index⟩

/-- The emission index of the tag that a segment stands for. -/
def tagIndex? (segment : Segment) : Option Nat :=
  match segment.origin with
  | .tag index => some index
  | _ => none

/-- A segment stands for a tag. -/
def isTag (segment : Segment) : Bool :=
  segment.tagIndex?.isSome

/-- A segment stands for bytes that no tag claims. -/
def isFragment (segment : Segment) : Bool :=
  segment.origin == .gap

/-- What a segment says as a tag. -/
def toTag (segment : Segment) : Tag :=
  ⟨segment.span, segment.kind, segment.description⟩

/-- A length as it is shown: in decimal below sixteen, else in hexadecimal. -/
def lengthText (length : UInt64) : String :=
  if length < 16 then Numeral.decimal length.toNat else Numeral.upperHex length.toNat

/-- The words for a segment after its span and length. -/
def caption (fragmentLabel : String) (segment : Segment) : String :=
  match segment.origin with
  | .file => "root"
  | .gap => fragmentLabel
  | .tag _ => Tag.caption segment.kind segment.description

/-- The line for a segment: span, length and caption. -/
def label (fragmentLabel : String) (segment : Segment) : String :=
  segment.span.text ++ " (" ++ lengthText segment.span.length ++ ") " ++
    segment.caption fragmentLabel

end Segment

/-- What an admitted or skipped tag gives cause to point out. -/
inductive Warning
  /-- A tag that holds no byte was left out. -/
  | skipped (entry : Entry)
  /-- The length of a tag is not the width that its kind fixes. -/
  | width (entry : Entry) (expected : UInt64)
deriving DecidableEq

/-- The warning about the length of an admitted tag, if there is cause for one. -/
def widthWarning? (entry : Entry) : Option Warning :=
  entry.tag.kind.width?.bind fun width =>
    if width = entry.span.length then none else some (.width entry width)

/-- The entries that take part, with the warnings up to the end or to the first error. -/
def admission (bounds : Span) (policy : DegeneratePolicy) :
    List Entry → List Warning × Except HierarchyError (List Entry)
  | [] => ([], .ok [])
  | entry :: rest =>
    if entry.span.Degenerate then
      match policy with
      | .reject =>
        ([], .error (.degenerate entry.index entry.span entry.tag.description))
      | .skip =>
        let (warnings, admitted) := admission bounds policy rest
        (.skipped entry :: warnings, admitted)
    else if bounds.Encloses entry.span then
      let (warnings, admitted) := admission bounds policy rest
      ((widthWarning? entry).toList ++ warnings, admitted.map (entry :: ·))
    else
      ([], .error (.outOfBounds entry.index entry.span bounds))

/-- A fragment from `start` to `stop`, if that holds a byte, and then `beside`. -/
def gapBefore (start stop : UInt64) (beside : Grove Segment) : Grove Segment :=
  if start < stop then .node (.fragment ⟨start, stop⟩) .nil beside else beside

/-- The segments for neighbours in ascending order that are to tile the bytes from `cursor` to
`stop`: a fragment goes wherever bytes are left over. A tag with nothing below it stays so. -/
def tile (cursor stop : UInt64) : Grove Entry → Grove Segment
  | .nil => gapBefore cursor stop .nil
  | .node entry below beside =>
    let inner := if below.isEmpty then .nil else tile entry.span.start entry.span.stop below
    gapBefore cursor entry.span.start
      (.node (.ofEntry entry) inner (tile (max cursor entry.span.stop) stop beside))

end Coverage

/-- A file's span and the segments below it. -/
structure Coverage where
  /-- The bytes of the file. -/
  span : Span
  /-- The segments below the file. -/
  segments : Grove Coverage.Segment

namespace Coverage

/-- The coverage of a file by a nesting of tags within its span. -/
def ofNesting (span : Span) (fillGaps : Bool) (nesting : Grove Entry) : Coverage :=
  ⟨span, if fillGaps then tile span.start span.stop nesting else nesting.map .ofEntry⟩

/-- The coverage of a file by tags, with the warnings of admission. -/
def build (tags : List Tag) (span : Span) (options : Options) :
    List Warning × Except HierarchyError Coverage :=
  let (warnings, admitted) := admission span options.degenerate (Entry.numbered 0 tags)
  (warnings, do
    let nesting ← Nesting.ofEntries (← admitted)
    return ofNesting span options.fillGaps nesting)

/-- The file's node and all segments below it, as one tree. -/
def tree (coverage : Coverage) : Grove Segment :=
  .tree (.file coverage.span) coverage.segments

/-- All places, the file's first, each before those below it. -/
def places (coverage : Coverage) : List (Grove.Place Segment) :=
  coverage.tree.places

/-- The segments without children, in the order of their offsets. -/
def leaves (coverage : Coverage) : List Segment :=
  coverage.tree.leaves

/-- The number of nodes on a longest way down, the file's included. -/
def depth (coverage : Coverage) : Nat :=
  coverage.tree.height

/-- The number of nodes: the file, the tags and the fragments. -/
def nodeCount (coverage : Coverage) : Nat :=
  coverage.tree.size

/-- The number of fragments. -/
def fragmentCount (coverage : Coverage) : Nat :=
  coverage.segments.labels.countP Segment.isFragment

/-- The first place of a tag with the description. -/
def find? (coverage : Coverage) (description : String) : Option (Grove.Place Segment) :=
  coverage.places.find? fun place =>
    place.label.isTag && place.label.description == description

/-- The emission index of every tag with that of the tag just above it, ascending. -/
def parentMap (coverage : Coverage) : List (Nat × Option Nat) :=
  (coverage.places.filterMap fun place =>
    place.label.tagIndex?.map fun index => (index, place.parent?.bind Segment.tagIndex?)).mergeSort
    fun a b => a.1 ≤ b.1

/-- The tags, each before those in it, with the position of the tag just above in this list. -/
def flatten (coverage : Coverage) : List (Tag × Option Nat) :=
  ((coverage.segments.prune Segment.isTag).number 0).links.map fun (numbered, above) =>
    (numbered.2.toTag, above.map Prod.fst)

/-- The drawing of a coverage, one line for each node. -/
def drawing (coverage : Coverage) (fragmentLabel : String) : String :=
  Grove.joinLines
    (Grove.drawTree (Segment.label fragmentLabel) (.file coverage.span) coverage.segments)

/-- One line for each leaf, in the order of their offsets. -/
def leafLines (coverage : Coverage) (fragmentLabel : String) : List String :=
  coverage.leaves.map (Segment.label fragmentLabel)

end Coverage

end Laminar
