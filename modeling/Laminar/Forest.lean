import Laminar.Grove.Drawing

/-!
# Forests

A forest arranges items by a relation that says which item contains which. Items arrive one at a
time. Each walks down from the top, at every node to the first child that contains it, until it
wraps the node itself, wraps some of the node's children, or joins the children as a new one.
The relation is asked in a fixed order and may answer by a state that each question can change,
so nothing is assumed about it: it need not even answer alike twice.
-/

namespace Laminar

/-- A relation between items that is asked one question after another. -/
abbrev Relation (σ α : Type) :=
  α → α → StateM σ Bool

/-- A relation that always answers alike. -/
def Relation.ofBool {σ α : Type} (contains : α → α → Bool) : Relation σ α :=
  fun a b => return contains a b

namespace Forest

/-- An item with the slot that it got when it was inserted. -/
structure Planted (α : Type) where
  /-- The number of the item among the inserted ones, from one. -/
  slot : Nat
  /-- The item. -/
  item : α
deriving DecidableEq

/-- What an insertion does at one node. -/
inductive Step
  /-- The item takes the place of the node and has the node as its child. -/
  | wrapNode
  /-- The item takes over some of the node's children and becomes the last child. -/
  | wrapChildren
  /-- The walk goes on at the child in a slot. -/
  | descend (slot : Nat)
  /-- The item becomes the last child. -/
  | newSibling
deriving DecidableEq

/-- The customary number of each step. -/
def Step.number : Step → Nat
  | .wrapNode => 1
  | .wrapChildren => 2
  | .descend _ => 3
  | .newSibling => 4

/-- How a relation contradicts itself or a forest. -/
inductive Misfit (α : Type)
  /-- An item came down to a node that does not contain it. -/
  | unplaced (item node : α)
  /-- An item does not contain one that lies below it. -/
  | notContained (item ancestor : α)
  /-- Of two siblings one contains the other. -/
  | relatedSiblings (first second : α)
deriving DecidableEq

namespace Misfit

variable {α : Type}

/-- The item that a misfit is about. -/
def item : Misfit α → α
  | unplaced item _ => item
  | notContained item _ => item
  | relatedSiblings first _ => first

/-- The item that it is at odds with. -/
def other : Misfit α → α
  | unplaced _ node => node
  | notContained _ ancestor => ancestor
  | relatedSiblings _ second => second

/-- How the two are at odds. -/
def reason : Misfit α → String
  | unplaced .. => "fits no insertion case under"
  | notContained .. => "is not contained by its ancestor"
  | relatedSiblings .. => "is related to its sibling"

/-- The wording of a misfit, with the items shown by `text`. -/
def message (text : α → String) (misfit : Misfit α) : String :=
  "malformed relation: " ++ text misfit.item ++ " " ++ misfit.reason ++ " " ++ text misfit.other

end Misfit

/-- The end of an insertion's walk: its steps and what the grove it walked in becomes. -/
structure Landing (α : Type) where
  /-- The steps, in their order. -/
  steps : List Step
  /-- The grove with the item in it, or why the item has no place. -/
  result : Except (Misfit α) (Grove (Planted α))

/-- The landing with one more step before the others. -/
def Landing.after {α : Type} (step : Step) (landing : Landing α) : Landing α :=
  { landing with steps := step :: landing.steps }

/-- The landing in a grove of which the one it happened in is a part. -/
def Landing.inside {α : Type} (whole : Grove (Planted α) → Grove (Planted α))
    (landing : Landing α) : Landing α :=
  { landing with result := landing.result.map whole }

section Insertion

variable {σ α : Type} (contains : Relation σ α) (new : Planted α)

/-- An insertion at a node with the given children; `owner` is the node's item, and `deeper`
carries the walk on below the first child that contains the new item, if there is one. -/
def settle (owner : Option α) (children : Grove (Planted α))
    (deeper : StateM σ (Option (Landing α))) : StateM σ (Landing α) := do
  let (taken, kept) ← children.separate fun child => contains new.item child.item
  if ! taken.isEmpty then
    return ⟨[.wrapChildren], .ok (kept ++ .tree new taken)⟩
  else
    match ← deeper with
    | some landing => return landing
    | none =>
      let joined : Landing α := ⟨[.newSibling], .ok (children ++ .tree new .nil)⟩
      match owner with
      | none => return joined
      | some node =>
        if ← contains node new.item then return joined
        else return ⟨[], .error (.unplaced new.item node)⟩

/-- The walk into the first of some trees that contains the new item, if there is one. -/
def descend : Grove (Planted α) → StateM σ (Option (Landing α))
  | .nil => return none
  | .node child below beside => do
    if ← contains child.item new.item then
      let landing : Landing α ← do
        if ← contains new.item child.item then
          pure ⟨[.wrapNode], .ok (.node new (.tree child below) beside)⟩
        else
          let inner ← settle contains new (some child.item) below (descend below)
          pure (inner.inside fun below => .node child below beside)
      return some (landing.after (.descend child.slot))
    else
      return (← descend beside).map (Landing.inside fun beside => .node child below beside)

end Insertion

end Forest

/-- Items arranged by a relation. -/
structure Forest (α : Type) where
  /-- The trees of the forest. -/
  trees : Grove (Forest.Planted α)
  /-- The number of items inserted so far. -/
  count : Nat

namespace Forest

variable {σ α : Type}

/-- The forest without items. -/
def empty : Forest α :=
  ⟨.nil, 0⟩

/-- Inserts one item: the steps of its walk, and the forest with the item in the next slot. -/
def insert (contains : Relation σ α) (forest : Forest α) (item : α) :
    StateM σ (List Step × Except (Misfit α) (Forest α)) := do
  let new : Planted α := ⟨forest.count + 1, item⟩
  let landing ← settle contains new none forest.trees (descend contains new forest.trees)
  return (landing.steps, landing.result.map fun trees => ⟨trees, forest.count + 1⟩)

/-- Inserts items in their order, up to the first that has no place. -/
def insertAll (contains : Relation σ α) (forest : Forest α) :
    List α → StateM σ (Except (Misfit α) (Forest α))
  | [] => return .ok forest
  | item :: rest => do
    match ← forest.insert contains item with
    | (_, .ok grown) => grown.insertAll contains rest
    | (_, .error misfit) => return .error misfit

/-- The forest of items that are inserted in their order. -/
def build (contains : Relation σ α) (items : List α) :
    StateM σ (Except (Misfit α) (Forest α)) :=
  empty.insertAll contains items

/-- The record of one insertion. -/
structure Entry (α : Type) where
  /-- The steps of the walk. -/
  steps : List Step
  /-- Why the item has no place, if it has none. -/
  misfit : Option (Misfit α)
  /-- The forest afterwards. -/
  forest : Forest α

/-- Inserts items in their order; one that has no place is dropped and changes nothing. -/
def insertEach (contains : Relation σ α) (forest : Forest α) :
    List α → StateM σ (List (Entry α))
  | [] => return []
  | item :: rest => do
    let (steps, result) ← forest.insert contains item
    let entry : Entry α :=
      match result with
      | .ok grown => ⟨steps, none, grown⟩
      | .error misfit => ⟨steps, some misfit, forest⟩
    return entry :: (← entry.forest.insertEach contains rest)

/-- The number of items. -/
def size (forest : Forest α) : Nat :=
  forest.count

/-- The number of items on a longest way down. -/
def depth (forest : Forest α) : Nat :=
  forest.trees.height

/-- The items with their slots, each before those below it. -/
def toList (forest : Forest α) : List (Planted α) :=
  forest.trees.labels

/-- The items with nothing below them, from left to right. -/
def leaves (forest : Forest α) : List α :=
  forest.trees.leaves.map Planted.item

/-- The first place of an item. -/
def find? [DecidableEq α] (forest : Forest α) (item : α) : Option (Grove.Place (Planted α)) :=
  forest.trees.places.find? fun place => place.label.item == item

/-- The drawing of a forest, its top shown as a node of its own. -/
def drawing (text : α → String) (forest : Forest α) : String :=
  Grove.joinLines ("root" :: forest.trees.drawBelow (fun planted => text planted.item) "")

/-! ## Checking a forest against a relation -/

/-- Every item with the items above it, the nearest first, each before those below it. -/
def ancestorPairs (forest : Forest α) : List (α × α) :=
  forest.trees.places.flatMap fun place =>
    place.above.map fun ancestor => (ancestor.item, place.label.item)

/-- The pairs of a list, the earlier member first. -/
def pairs : List α → List (α × α)
  | [] => []
  | x :: rest => rest.map (fun y => (x, y)) ++ pairs rest

/-- The pairs of siblings, those at the top first. -/
def siblingPairs (forest : Forest α) : List (α × α) :=
  (forest.trees.roots :: forest.trees.places.map Grove.Place.children).flatMap fun siblings =>
    pairs (siblings.map Planted.item)

/-- The first misfit that a check finds in a list. -/
def firstMisfit? {β : Type} (check : β → StateM σ (Option (Misfit α))) :
    List β → StateM σ (Option (Misfit α))
  | [] => return none
  | x :: rest => do
    match ← check x with
    | some misfit => return some misfit
    | none => firstMisfit? check rest

/-- An item is to contain one that lies below it. -/
def checkAncestor (contains : Relation σ α) (pair : α × α) : StateM σ (Option (Misfit α)) := do
  if ← contains pair.1 pair.2 then return none
  else return some (.notContained pair.2 pair.1)

/-- Neither of two siblings is to contain the other. -/
def checkSiblings (contains : Relation σ α) (pair : α × α) : StateM σ (Option (Misfit α)) := do
  if ← contains pair.1 pair.2 then return some (.relatedSiblings pair.1 pair.2)
  else if ← contains pair.2 pair.1 then return some (.relatedSiblings pair.1 pair.2)
  else return none

/-- The first way in which a forest disagrees with a relation: every item is to contain all below
it, and no two siblings are to be related. -/
def disagreement? (contains : Relation σ α) (forest : Forest α) :
    StateM σ (Option (Misfit α)) := do
  match ← firstMisfit? (checkAncestor contains) forest.ancestorPairs with
  | some misfit => return some misfit
  | none => firstMisfit? (checkSiblings contains) forest.siblingPairs

end Forest

end Laminar
