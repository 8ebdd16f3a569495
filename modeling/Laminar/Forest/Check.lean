import Laminar.Forest.Linked
import Laminar.NodeStore.Walk

/-!
# Checks of a linked forest

A check follows the links of a linked forest. It walks through the nodes from the top, asks at every
item about those on the way up from its node, and then asks about each pair of siblings. The top
holds no item, so it is asked about nowhere.
-/

namespace Laminar.LinkedForest

open Forest (Misfit checkAncestor checkSiblings firstMisfit? pairs)

variable {σ α : Type}

/-- The item of the parent that the node in a slot names, if the parent holds one. -/
def parentItem? (forest : LinkedForest α) (slot : Slot) : Option α :=
  (forest.parent? slot).bind (item? forest)

/-- The items on the way up from a slot, the nearest first, if every link leads to a node. -/
def itemsAbove (forest : LinkedForest α) (slot : Slot) : List α :=
  ((forest.ancestors? slot).getD []).filterMap (item? forest)

/-- The items of the children of a node, in their order. -/
def childItems (forest : LinkedForest α) (slot : Slot) : List α :=
  (forest.children slot).filterMap (item? forest)

/-- Every item with the items on the way up from its node, in the order of the walk. -/
def ancestorPairs (forest : LinkedForest α) : List (α × α) :=
  forest.preorder.flatMap fun slot =>
    (item? forest slot).toList.flatMap fun item =>
      (itemsAbove forest slot).map fun above => (above, item)

/-- The pairs of siblings, in the order in which the walk comes to their parents. -/
def siblingPairs (forest : LinkedForest α) : List (α × α) :=
  forest.preorder.flatMap fun slot => pairs (childItems forest slot)

/-- The first way in which a linked forest disagrees with a relation: every item is to contain all
below it, and no two siblings are to be related. -/
def disagreement? (contains : Relation σ α) (forest : LinkedForest α) :
    StateM σ (Option (Misfit α)) := do
  match ← firstMisfit? (checkAncestor contains) (ancestorPairs forest) with
  | some misfit => return some misfit
  | none => firstMisfit? (checkSiblings contains) (siblingPairs forest)

end Laminar.LinkedForest
