import Laminar.Grove
import Laminar.NodeStore
import Laminar.Text.Quoted

/-!
# Walks through a node store

The pre-order walk keeps a stack of slots still to be visited, the depth and the tree of texts go
down the lists of children, and the ancestors are found along the parent links. Where the links form
no cycle each of these ends by itself within the bounds given here: a way down or up visits no slot
twice, so it has at most as many nodes as the store, and the number of ways down is bounded
accordingly.
-/

namespace Laminar.NodeStore

variable {α : Type}

/-- The next node of a walk and the slots that are then still to be visited. A slot without node
is passed over. -/
def nextVisit? (store : NodeStore α) : List Slot → Option (Slot × List Slot)
  | [] => none
  | slot :: waiting =>
    match store.node? slot with
    | some node => some (slot, node.children ++ waiting)
    | none => store.nextVisit? waiting

/-- The slots that a walk of at most `steps` visits goes through. -/
def visits (store : NodeStore α) (steps : Nat) (waiting : List Slot) : List Slot :=
  match steps with
  | 0 => []
  | steps + 1 =>
    match store.nextVisit? waiting with
    | some (slot, waiting) => slot :: store.visits steps waiting
    | none => []

/-- The number of child links. -/
def linkCount (store : NodeStore α) : Nat :=
  (store.nodes.toList.flatMap Node.children).length

/-- A bound on the number of ways down from one slot. -/
def wayBound (store : NodeStore α) : Nat :=
  Nat.pow (store.linkCount + 1) (store.size + 1)

/-- The slots below the root, and the root first, each before its children. -/
def preorder (store : NodeStore α) : List Slot :=
  store.visits store.wayBound store.root.toList

/-- A node has no children. -/
def isLeaf (store : NodeStore α) (slot : Slot) : Bool :=
  (store.children slot).isEmpty

/-- The slots of a walk that have no children. -/
def leaves (store : NodeStore α) : List Slot :=
  store.preorder.filter store.isLeaf

/-- The number of nodes on a longest way down from a slot, of at most `levels`. -/
def heightWithin (store : NodeStore α) (levels : Nat) (slot : Slot) : Nat :=
  match levels with
  | 0 => 0
  | levels + 1 =>
    match store.node? slot with
    | none => 0
    | some node => 1 + (node.children.map (store.heightWithin levels)).foldl max 0

/-- The number of nodes on a longest way down from the root. -/
def depth (store : NodeStore α) : Nat :=
  match store.root with
  | some root => store.heightWithin store.size root
  | none => 0

/-- The tree of the texts of the node in a slot and of those below it, of at most `levels`. A slot
without node has no text. -/
def textTree (store : NodeStore α) (text : α → String) (levels : Nat) (slot : Slot) :
    Grove String :=
  match levels with
  | 0 => .nil
  | levels + 1 =>
    match store.node? slot with
    | none => .tree "" .nil
    | some node =>
      .tree (text node.label) ((node.children.map (store.textTree text levels)).foldr (· ++ ·) .nil)

/-- The slots on the way up from a slot, of at most `levels`, if every link leads to a node. -/
def ancestorsWithin? (store : NodeStore α) (levels : Nat) (slot : Slot) : Option (List Slot) :=
  match levels with
  | 0 => some []
  | levels + 1 => do
    match (← store.node? slot).parent with
    | none => return []
    | some parent => return parent :: (← store.ancestorsWithin? levels parent)

/-- The slots on the way up from a slot, the parent first, if every link leads to a node. -/
def ancestors? (store : NodeStore α) (slot : Slot) : Option (List Slot) :=
  store.ancestorsWithin? (store.size + 1) slot

/-- A node as it is seen from outside, all links followed. -/
structure View (α : Type) where
  /-- The label. -/
  label : α
  /-- The labels of the children, in their order. -/
  children : List α
  /-- The slot of the parent. -/
  parent : Option Slot
  /-- The slots on the way up, the parent first. -/
  ancestors : List Slot

/-- The node in a slot with all its links followed, if they lead to nodes. -/
def view? (store : NodeStore α) (slot : Slot) : Option (View α) := do
  let node ← store.node? slot
  let children ← node.children.mapM fun child => (store.node? child).map Node.label
  let ancestors ← store.ancestors? slot
  return ⟨node.label, children, node.parent, ancestors⟩

/-- A description of the node in a slot for debugging. -/
def describe? (store : NodeStore String) (slot : Slot) : Option String :=
  (store.node? slot).map fun node =>
    "NodeRef \x7b index: Index \x7b index: " ++ Numeral.decimal slot ++
      ", generation: 0 \x7d, data: " ++ Text.quote node.label ++ ", children: " ++
      Numeral.decimal node.children.length ++ " \x7d"

end Laminar.NodeStore
