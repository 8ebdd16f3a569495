import Laminar.Grove
import Laminar.HierarchyError

/-!
# Nesting

Tags arrive in the order of their emission, not of their nesting. Sorted by beginning, the wider
first and equal spans as emitted, every tag comes after all that enclose it, so one pass over the
sorted tags finds the structure: below a tag lies what begins before its end. The tags nest if
every tag is then enclosed by the one just above it, and the first that is not shows a crossing.
-/

namespace Laminar

/-- A tag with its place in the order of emission. -/
structure Entry where
  /-- The place in the order of emission, from zero. -/
  index : Nat
  /-- The tag. -/
  tag : Tag
deriving DecidableEq

/-- The span of an entry's tag. -/
def Entry.span (entry : Entry) : Span :=
  entry.tag.span

/-- The tags with their places, the first at `next`. -/
def Entry.numbered (next : Nat) : List Tag → List Entry
  | [] => []
  | tag :: rest => ⟨next, tag⟩ :: numbered (next + 1) rest

/-- The order of nesting: by beginning, the later end first, then by emission. -/
def Entry.order (a b : Entry) : Ordering :=
  (compare a.span.start b.span.start).then
    ((compare b.span.stop a.span.stop).then (compare a.index b.index))

/-- One entry comes no later than another in the order of nesting. -/
def Entry.comesFirst (a b : Entry) : Bool :=
  (a.order b).isLE

namespace Nesting

/-- Groups sorted entries: below an entry lies what follows it and begins before its end. -/
def group : List Entry → Grove Entry
  | [] => .nil
  | entry :: rest =>
    let begins (other : Entry) : Bool := other.span.start < entry.span.stop
    .node entry (group (rest.takeWhile begins)) (group (rest.dropWhile begins))
termination_by entries => entries.length
decreasing_by
  · exact Nat.lt_succ_of_le (List.takeWhile_sublist _).length_le
  · exact Nat.lt_succ_of_le (List.dropWhile_sublist _).length_le

/-- The first entry, in the order of nesting, that the entry just above it does not enclose. -/
def firstCrossing? (g : Grove Entry) : Option (Entry × Entry) :=
  g.links.findSome? fun
    | (inner, some outer) => if outer.span.Encloses inner.span then none else some (outer, inner)
    | (_, none) => none

/-- The nesting of entries in any order, or the first crossing. -/
def ofEntries (entries : List Entry) : Except HierarchyError (Grove Entry) :=
  let grouped := group (entries.mergeSort Entry.comesFirst)
  match firstCrossing? grouped with
  | some (outer, inner) => .error (.crossing outer.tag inner.tag)
  | none => .ok grouped

/-- For every entry of a nesting, in the order of emission, the index of the one just above. -/
def parents (g : Grove Entry) : List (Option Nat) :=
  let byIndex := g.links.mergeSort fun a b => a.1.index ≤ b.1.index
  byIndex.map fun link => link.2.map Entry.index

/-- For every tag, the index of its tightest encloser. Among tags of one span, each lies in the
one emitted before it. -/
def resolve (tags : List Tag) : Except HierarchyError (List (Option Nat)) :=
  (ofEntries (Entry.numbered 0 tags)).map parents

end Nesting

end Laminar
