import Laminar.Coverage
import Laminar.Nesting.Sweep
import Laminar.NodeStore.Walk
import Laminar.Span.Gaps

/-!
# Linked coverages

A coverage is put together in a node store. The file's node is the root, in slot zero, and each
admitted entry gets the next slot. The nodes become children in the order of emission, each of the
node for the tag just above. Then the children of every inner node are put in the order of their
offsets, together with new nodes for the gaps between them if gaps are filled. The new nodes are
counted as they are made.
-/

namespace Laminar

/-- A coverage in a node store. -/
structure LinkedCoverage where
  /-- The nodes. -/
  store : NodeStore Coverage.Segment
  /-- The number of nodes that were made for gaps. -/
  fragments : Nat

namespace LinkedCoverage

open Coverage (Options Segment Warning)

/-- The slot of the file's node. -/
def top : Slot :=
  0

/-! ## Tags -/

/-- The nodes for a file and for some entries, without links. -/
def scattered (span : Span) (entries : List Entry) : NodeStore Segment :=
  (NodeStore.empty.add (.file span) none).addEach (entries.map .ofEntry)

/-- The slot for the entry emitted at an index, if it is among the entries. -/
def slot? (entries : List Entry) (index : Nat) : Option Slot :=
  (entries.findIdx? fun entry => entry.index = index).map (· + 1)

/-- Each entry's slot, in the order of emission, with the slot just above. What has no parent among
the entries is just below the file. -/
def adoptions (entries : List Entry) (parents : List (Option Nat)) : List (Slot × Slot) :=
  (entries.zip parents).filterMap fun (entry, parent) =>
    (slot? entries entry.index).map fun slot => ((parent.bind (slot? entries)).getD top, slot)

/-- The nodes for a file and for some entries, each entry below its parent. -/
def gathered (span : Span) (entries : List Entry) (parents : List (Option Nat)) :
    NodeStore Segment :=
  (scattered span entries).adoptEach (adoptions entries parents)

/-! ## Children in order -/

/-- The span of the node in a slot. -/
def span? (store : NodeStore Segment) (slot : Slot) : Option Span :=
  (store.node? slot).map fun node => node.label.span

/-- The node in one slot begins no later than the node in another. -/
def beginsFirst (store : NodeStore Segment) (a b : Slot) : Bool :=
  match span? store a, span? store b with
  | some first, some second => first.start ≤ second.start
  | some _, none => false
  | none, _ => true

/-- The slot of the file's node or of a node with children, with the span of the node. -/
def inner? (store : NodeStore Segment) (slot : Slot) : Option (Slot × Span) :=
  (store.node? slot).bind fun node =>
    if slot = top ∨ ¬ node.children.isEmpty then some (slot, node.label.span) else none

/-- The slots of the file's node and of all nodes with children, with the spans of the nodes. -/
def inner (store : NodeStore Segment) : List (Slot × Span) :=
  store.preorder.filterMap (inner? store)

/-- The gaps that the children of a node leave in a span, if gaps are filled. -/
def gapsBelow (fillGaps : Bool) (store : NodeStore Segment) (slot : Slot) (span : Span) :
    List Span :=
  if fillGaps then span.gaps ((store.children slot).filterMap (span? store)) else []

/-- Puts the children of one node in order, with new nodes for the gaps between them. -/
def arrangeBelow (fillGaps : Bool) (coverage : LinkedCoverage) (slot : Slot) (span : Span) :
    LinkedCoverage :=
  let gaps := gapsBelow fillGaps coverage.store slot span
  let store := coverage.store.addEach (gaps.map .fragment)
  let children := coverage.store.children slot ++ List.range' coverage.store.nextSlot gaps.length
  ⟨store.setChildren slot (children.mergeSort (beginsFirst store)),
    coverage.fragments + gaps.length⟩

/-- Puts the children of all inner nodes in order. Which nodes these are is found out first. -/
def arrange (fillGaps : Bool) (store : NodeStore Segment) : LinkedCoverage :=
  (inner store).foldl (fun coverage place => arrangeBelow fillGaps coverage place.1 place.2)
    ⟨store, 0⟩

/-- The coverage of a file by tags in a node store, with the warnings of admission. -/
def build (tags : List Tag) (span : Span) (options : Options) :
    List Warning × Except HierarchyError LinkedCoverage :=
  let (warnings, admitted) := Coverage.admission span options.degenerate (Entry.numbered 0 tags)
  (warnings, do
    let entries ← admitted
    let parents ← Sweep.tightest entries
    return arrange options.fillGaps (gathered span entries parents))

/-! ## Counts -/

/-- The number of nodes in the store. -/
def nodeCount (coverage : LinkedCoverage) : Nat :=
  coverage.store.size

/-- The number of nodes that were made for gaps. -/
def fragmentCount (coverage : LinkedCoverage) : Nat :=
  coverage.fragments

/-- The labels that a walk from the root meets. -/
def visited (coverage : LinkedCoverage) : List Segment :=
  coverage.store.preorder.filterMap fun slot => (coverage.store.node? slot).map Node.label

/-- The tree of the lines for the nodes. -/
def textTree (coverage : LinkedCoverage) (fragmentLabel : String) : Grove String :=
  coverage.store.textTree (Segment.label fragmentLabel) coverage.store.size top

/-- The slot of the first node that a walk from the root meets and that stands for a tag with the
description. -/
def find? (coverage : LinkedCoverage) (description : String) : Option Slot :=
  coverage.store.preorder.find? fun slot =>
    (coverage.store.node? slot).any fun node =>
      node.label.isTag && node.label.description == description

end LinkedCoverage

end Laminar
