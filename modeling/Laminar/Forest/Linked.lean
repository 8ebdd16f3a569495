import Laminar.Forest
import Laminar.NodeStore

/-!
# Linked forests

While a forest grows, its items are in a node store. The top is in slot zero and holds no item, and
every new item goes into the next slot. An insertion follows the links down from the top and then
moves some of them, so an item that has no place leaves all links as they are. The answers of the
relation decide where the walk goes; only the links say whether it comes to an end.
-/

namespace Laminar

/-- A node store of items, in which the top is the node that holds none. -/
abbrev LinkedForest (α : Type) :=
  NodeStore (Option α)

namespace LinkedForest

open Forest (Step)

variable {σ α : Type}

/-- The slot of the top. -/
def top : Slot :=
  0

/-- The linked forest without items. -/
def bare : LinkedForest α :=
  NodeStore.empty.add none none

/-- The item in a slot, if the slot has a node that holds one. -/
def item? (forest : LinkedForest α) (slot : Slot) : Option α :=
  (forest.node? slot).bind Node.label

/-- Asks whether the item in a slot contains another one. Where there is none, nothing is asked. -/
def nodeContains (contains : Relation σ α) (forest : LinkedForest α) (slot : Slot) (item : α) :
    StateM σ Bool :=
  match forest.item? slot with
  | some node => contains node item
  | none => return false

/-- Asks whether an item contains the one in a slot. Where there is none, nothing is asked. -/
def containedBy (contains : Relation σ α) (forest : LinkedForest α) (item : α) (slot : Slot) :
    StateM σ Bool :=
  match forest.item? slot with
  | some node => contains item node
  | none => return false

/-- Asks for each of some slots whether an item contains the one there; the answer is the slots for
which it does. -/
def included (contains : Relation σ α) (forest : LinkedForest α) (item : α) :
    List Slot → StateM σ (List Slot)
  | [] => return []
  | slot :: rest => do
    let answer ← containedBy contains forest item slot
    let others ← included contains forest item rest
    return if answer then slot :: others else others

/-! ## Moving links -/

/-- An item takes the place of a node and has the node as its child. -/
def wrapNode (forest : LinkedForest α) (current : Slot) (item : α) : LinkedForest α :=
  let new := forest.nextSlot
  let added := forest.addDetached (some item)
  let placed :=
    match added.parent? current with
    | some parent => (added.replaceChild parent current new).1
    | none => added
  placed.adopt new current

/-- An item takes over some of a node's children and becomes the last child of the node. -/
def wrapChildren (forest : LinkedForest α) (current : Slot) (chosen : List Slot) (item : α) :
    LinkedForest α :=
  let (left, taken) := forest.takeChildren current fun child => child ∈ chosen
  (left.add (some item) (some current)).setChildren left.nextSlot taken

/-! ## Insertions -/

/-- Why an item has no place: the walk came down to a node that does not contain it. -/
structure Refusal (α : Type) where
  /-- The new item. -/
  item : α
  /-- The item of the node, if it holds one. -/
  node : Option α

/-- The wording of a refusal, with the items shown by `text`. -/
def Refusal.message (text : α → String) (refusal : Refusal α) : String :=
  "malformed relation: " ++ text refusal.item ++ " fits no insertion case under " ++
    (refusal.node.map text).getD ""

/-- What one round of a walk comes to. -/
inductive Turn (α : Type)
  /-- The item has a node, after one last step. -/
  | placed (step : Step) (forest : LinkedForest α)
  /-- The walk goes on at a child. -/
  | descend (next : Slot)
  /-- The item has no place. -/
  | refused (refusal : Refusal α)

/-- The end of a walk at a node none of whose children is related to the item. The top takes every
item. -/
def join (contains : Relation σ α) (forest : LinkedForest α) (item : α) (current : Slot) :
    StateM σ (Turn α) := do
  let joined : Turn α := .placed .newSibling (forest.add (some item) (some current))
  if current = top then return joined
  else if ← nodeContains contains forest current item then return joined
  else return .refused ⟨item, item? forest current⟩

/-- A round of the walk at a node that the item does not contain. -/
def settle (contains : Relation σ α) (forest : LinkedForest α) (item : α) (current : Slot) :
    StateM σ (Turn α) := do
  let chosen ← included contains forest item (forest.children current)
  if ! chosen.isEmpty then
    return .placed .wrapChildren (wrapChildren forest current chosen item)
  else
    match ← (forest.children current).findM?
      fun child => nodeContains contains forest child item with
    | some next => return .descend next
    | none => join contains forest item current

/-- A round of the walk. -/
def turn (contains : Relation σ α) (forest : LinkedForest α) (item : α) (current : Slot) :
    StateM σ (Turn α) := do
  if current = top then settle contains forest item current
  else if ← containedBy contains forest item current then
    return .placed .wrapNode (wrapNode forest current item)
  else settle contains forest item current

/-- What an insertion did. -/
structure Attempt (α : Type) where
  /-- The steps of the walk. -/
  steps : List Step
  /-- The slot of the item, or why it has none. -/
  result : Except (Refusal α) Slot
  /-- The linked forest afterwards. -/
  forest : LinkedForest α

/-- The attempt with one more step before the others. -/
def Attempt.after (step : Step) (attempt : Attempt α) : Attempt α :=
  { attempt with steps := step :: attempt.steps }

/-- The walk of an item from a slot, if it comes to an end within a number of levels, with the state
that the relation is then in. -/
def walk (contains : Relation σ α) (forest : LinkedForest α) (item : α) (levels : Nat)
    (current : Slot) (state : σ) : Option (Attempt α × σ) :=
  match levels with
  | 0 => none
  | levels + 1 =>
    match (turn contains forest item current).run state with
    | (.placed step grown, state) => some (⟨[step], .ok forest.nextSlot, grown⟩, state)
    | (.refused refusal, state) => some (⟨[], .error refusal, forest⟩, state)
    | (.descend next, state) => do
      let (attempt, state) ← walk contains forest item levels next state
      return (attempt.after (.descend next), state)

/-- Inserts one item, if its walk comes to an end. A way down that visits no slot twice has at most
as many levels as there are nodes. -/
def insert (contains : Relation σ α) (forest : LinkedForest α) (item : α) (state : σ) :
    Option (Attempt α × σ) :=
  walk contains forest item forest.size top state

/-- Inserts items in their order; one that has no place is dropped. -/
def insertEach (contains : Relation σ α) (forest : LinkedForest α) (items : List α) (state : σ) :
    Option (List (Attempt α) × σ) :=
  match items with
  | [] => some ([], state)
  | item :: rest => do
    let (attempt, state) ← insert contains forest item state
    let (others, state) ← insertEach contains attempt.forest rest state
    return (attempt :: others, state)

end LinkedForest

end Laminar
