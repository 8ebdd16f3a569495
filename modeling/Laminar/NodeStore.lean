import Laminar.Numeral

/-!
# Node stores

A node store keeps labelled nodes in numbered slots. A node has a link to its parent and a list of
links to its children, and one slot can be the root. Nodes are never removed: the operations only
add nodes and move links, so a slot stays valid. The operations are defined for every link, also
one to a slot that holds no node: such a link is kept and leads nowhere.
-/

namespace Laminar

/-- The number of a slot, from zero. -/
abbrev Slot := Nat

/-- A labelled node and its links. -/
structure Node (α : Type) where
  /-- The label. -/
  label : α
  /-- The slot of the parent, none for the root and for detached nodes. -/
  parent : Option Slot
  /-- The slots of the children, in their order. -/
  children : List Slot

/-- Labelled nodes in numbered slots. -/
structure NodeStore (α : Type) where
  /-- The nodes, by slot. -/
  nodes : Array (Node α)
  /-- The slot of the root, if there is one. -/
  root : Option Slot

namespace NodeStore

variable {α : Type}

/-- The store without nodes. -/
def empty : NodeStore α :=
  ⟨#[], none⟩

/-- The number of nodes. -/
def size (store : NodeStore α) : Nat :=
  store.nodes.size

/-- The node in a slot. -/
def node? (store : NodeStore α) (slot : Slot) : Option (Node α) :=
  store.nodes[slot]?

/-- The children of the node in a slot; none if there is no such node. -/
def children (store : NodeStore α) (slot : Slot) : List Slot :=
  match store.node? slot with
  | some node => node.children
  | none => []

/-- The slot of the parent that the node in a slot names. -/
def parent? (store : NodeStore α) (slot : Slot) : Option Slot :=
  (store.node? slot).bind Node.parent

/-- The store with the node in a slot changed, if there is one. -/
def update (store : NodeStore α) (slot : Slot) (change : Node α → Node α) : NodeStore α :=
  { store with nodes := store.nodes.modify slot change }

/-- Changing a node makes no new one. -/
@[simp]
theorem size_update (store : NodeStore α) (slot : Slot) (change : Node α → Node α) :
    (store.update slot change).size = store.size := by
  simp [update, size]

/-- A change of one node shows in its slot only. -/
theorem node?_update (store : NodeStore α) (slot other : Slot) (change : Node α → Node α) :
    (store.update slot change).node? other =
      if slot = other then (store.node? other).map change else store.node? other := by
  simp [update, node?, Array.getElem?_modify]

/-- The store with the parent link of a node set. -/
def setParent (store : NodeStore α) (parent : Option Slot) (child : Slot) : NodeStore α :=
  store.update child fun node => { node with parent }

/-- Naming another parent makes no new node. -/
@[simp]
theorem size_setParent (store : NodeStore α) (parent : Option Slot) (child : Slot) :
    (store.setParent parent child).size = store.size :=
  size_update ..

/-- The slot of the next node to be added. -/
def nextSlot (store : NodeStore α) : Slot :=
  store.size

/-- Adds a node without links, in the next slot. -/
def addDetached (store : NodeStore α) (label : α) : NodeStore α :=
  { store with nodes := store.nodes.push ⟨label, none, []⟩ }

/-- A node without links is one node more. -/
@[simp]
theorem size_addDetached (store : NodeStore α) (label : α) :
    (store.addDetached label).size = store.size + 1 := by
  simp [addDetached, size]

/-- Adds nodes without links, in the next slots. -/
def addEach (store : NodeStore α) (labels : List α) : NodeStore α :=
  labels.foldl addDetached store

/-- Makes a node the last child of another, without a look at the parent it has. -/
def adopt (store : NodeStore α) (parent child : Slot) : NodeStore α :=
  (store.update parent fun node => { node with children := node.children ++ [child] }).setParent
    (some parent) child

/-- Making a node a child of another makes no new one. -/
@[simp]
theorem size_adopt (store : NodeStore α) (parent child : Slot) :
    (store.adopt parent child).size = store.size := by
  simp [adopt]

/-- Makes each second slot of some pairs the last child of the first. -/
def adoptEach (store : NodeStore α) (pairs : List (Slot × Slot)) : NodeStore α :=
  pairs.foldl (fun result pair => result.adopt pair.1 pair.2) store

/-- Adds a node as the last child of `parent`, or as the new root. -/
def add (store : NodeStore α) (label : α) (parent : Option Slot) : NodeStore α :=
  let added := store.addDetached label
  match parent with
  | some parent => added.adopt parent store.nextSlot
  | none => { added with root := some store.nextSlot }

/-- A node is added in the next slot. -/
@[simp]
theorem size_add (store : NodeStore α) (label : α) (parent : Option Slot) :
    (store.add label parent).size = store.size + 1 := by
  cases parent with
  | none => exact size_addDetached store label
  | some parent => simp [add]

/-- The list with the first `old` replaced. -/
def replaceFirst (old new : Slot) : List Slot → List Slot
  | [] => []
  | slot :: rest => if slot = old then new :: rest else slot :: replaceFirst old new rest

/-- Puts `new` where `old` is among the children of `parent`, and detaches `old`. If `old` is not
among them there is nothing to do, and the answer is false. -/
def replaceChild (store : NodeStore α) (parent old new : Slot) : NodeStore α × Bool :=
  if old ∈ store.children parent then
    let replaced := store.update parent fun node =>
      { node with children := replaceFirst old new node.children }
    ((replaced.setParent (some parent) new).setParent none old, true)
  else
    (store, false)

/-- Nothing is replaced if and only if there is nothing to replace. -/
theorem replaceChild_eq_false_iff (store : NodeStore α) (parent old new : Slot) :
    (store.replaceChild parent old new).2 = false ↔ old ∉ store.children parent := by
  unfold replaceChild
  split <;> simp_all

/-- Detaches the children of `parent` that are chosen; the answer is their slots. -/
def takeChildren (store : NodeStore α) (parent : Slot) (chosen : Slot → Bool) :
    NodeStore α × List Slot :=
  let (taken, kept) := (store.children parent).partition chosen
  (taken.foldl (fun result child => result.setParent none child)
    (store.update parent fun node => { node with children := kept }), taken)

/-- Makes a list of nodes the children of `parent`, in place of those it has. -/
def setChildren (store : NodeStore α) (parent : Slot) (children : List Slot) : NodeStore α :=
  (children.foldl (fun result child => result.setParent (some parent) child) store).update parent
    fun node => { node with children }

end NodeStore

end Laminar
