import Laminar.Forest.Check
import Laminar.Proofs.Forest.Tree
import Laminar.Proofs.NodeStore.Ascent
import Laminar.Proofs.NodeStore.Walk

/-!
# Walks through a linked forest

The walk through a linked forest meets the top and then the nodes of the trees that it shows, in
their order (`Represents.preorder_eq`). The way up from a node leads over the labels above its place
to the top (`Represents.ascends`). So a check by links asks the same questions as a check of the
forest that is shown, in the same order (`Represents.disagreement?_eq`).
-/

namespace Laminar.LinkedForest

open Forest (Planted)
open NodeStore (parent? Ascends)

variable {σ α : Type} {store : LinkedForest α} {owner : Slot} {trees : Grove (Planted α)}

namespace Shows

variable (shows : Shows store owner trees)

include shows

/-- A walk meets the nodes of the trees and goes on with the slots that wait behind them. -/
theorem visits_append (steps : Nat) (waiting : List Slot) :
    store.visits (trees.size + steps) (tops trees ++ waiting) =
      slots trees ++ store.visits steps waiting := by
  induction trees generalizing owner steps waiting with
  | nil => rw [Grove.size, Nat.zero_add]; rfl
  | node planted below beside inner later =>
    obtain ⟨here, lower, right⟩ := shows
    have total : (Grove.node planted below beside).size + steps =
        below.size + (beside.size + steps) + 1 := by
      rw [Grove.size]
      omega
    have next : store.nextVisit? (planted.slot :: (tops beside ++ waiting)) =
        some (planted.slot, tops below ++ (tops beside ++ waiting)) := by
      rw [NodeStore.nextVisit?, here]
    rw [total, tops_node, List.cons_append, NodeStore.visits, next]
    show planted.slot :: store.visits _ _ = _
    rw [inner lower, later right, slots_node, List.cons_append, List.append_assoc]

/-- From a node of the trees the way up leads over the labels above it to the owner and on. Below a
label the way up begins with its own slot, as `above` does with the label. -/
theorem ascends {above : List (Planted α)} {rest far : List Slot} (way : Ascends store owner rest)
    (same : owner :: rest = above.map Planted.slot ++ far) :
    ∀ place ∈ trees.placesBelow above,
      Ascends store place.label.slot (place.above.map Planted.slot ++ far) := by
  induction trees generalizing owner above rest with
  | nil => simp [Grove.placesBelow]
  | node planted below beside inner later =>
    obtain ⟨here, lower, right⟩ := shows
    have named : parent? store planted.slot = some owner := by
      rw [parent?, here]
      rfl
    have up : Ascends store planted.slot (owner :: rest) := .up named way
    simp only [Grove.placesBelow, List.forall_mem_cons, List.forall_mem_append]
    refine ⟨?_, inner lower up ?_, later right way same⟩
    · rw [← same]
      exact up
    · rw [same, List.map_cons, List.cons_append]

/-- The slots of labels hold their items. -/
theorem filterMap_item? {labels : List (Planted α)}
    (present : ∀ planted ∈ labels, planted ∈ trees.labels) :
    (labels.map Planted.slot).filterMap (item? store) = labels.map Planted.item := by
  rw [List.filterMap_map]
  exact List.filterMap_eq_map_iff_forall_eq_some.mpr
    fun planted listed => shows.item?_eq (present planted listed)

end Shows

namespace Represents

variable {forest : Forest α} {items : List α} (represents : Represents store forest items)

include represents

/-- The walk from the top meets all nodes. -/
theorem preorder_eq : store.preorder = top :: slots forest.trees := by
  have next (waiting : List Slot) : store.nextVisit? (top :: waiting) =
      some (top, tops forest.trees ++ waiting) := by
    rw [NodeStore.nextVisit?, represents.links]
  have few : forest.trees.size + 1 ≤ store.size :=
    Nat.le_of_eq (by rw [represents.size_trees, represents.size])
  have enough : forest.trees.size + 1 ≤ store.wayBound := by
    refine NodeStore.le_wayBound few fun many => ?_
    have children := represents.children_top
    cases trees : forest.trees with
    | nil =>
      rw [trees, Grove.size] at many
      omega
    | node planted below beside =>
      rw [trees, tops_node] at children
      exact NodeStore.linkCount_pos (children ▸ List.mem_cons_self)
  obtain ⟨more, bound⟩ := Nat.exists_eq_add_of_le enough
  have steps : store.wayBound = forest.trees.size + more + 1 := by omega
  rw [NodeStore.preorder, represents.root, steps]
  show store.visits _ [top] = _
  rw [NodeStore.visits, next]
  show top :: store.visits _ _ = _
  rw [represents.shows.visits_append, NodeStore.visits_nil, List.append_nil]

/-- The walk from the root comes to every node. -/
theorem mem_preorder {slot : Slot} (present : slot < store.size) : slot ∈ store.preorder := by
  rw [represents.preorder_eq, List.mem_cons, represents.mem_slots_iff]
  exact or_iff_not_imp_left.mpr fun inner => ⟨inner, present⟩

/-- Above the top there is nothing. -/
theorem ascends_top : Ascends store top [] := by
  refine .last (NodeStore.lt_size_of_node? represents.links) ?_
  rw [parent?, represents.links]
  rfl

/-- From a node the way up leads over the labels above it to the top. -/
theorem ascends :
    ∀ place ∈ forest.trees.places,
      Ascends store place.label.slot (place.above.map Planted.slot ++ [top]) :=
  represents.shows.ascends represents.ascends_top rfl

/-- The items on the way up are those above the place. -/
theorem itemsAbove_eq :
    ∀ place ∈ forest.trees.places,
      itemsAbove store place.label.slot = place.above.map Planted.item := by
  intro place placed
  rw [itemsAbove, (represents.ascends place placed).ancestors?_eq, Option.getD_some,
    List.filterMap_append,
    represents.shows.filterMap_item? (Grove.mem_labels_of_mem_above placed)]
  simp [represents.item?_top]

/-- The items of the children of a node are those just below its place. -/
theorem childItems_eq :
    ∀ place ∈ forest.trees.places,
      childItems store place.label.slot = place.children.map Planted.item := by
  intro place placed
  have children := (Grove.families_iff _ _).mp represents.shows.families_children place placed
  rw [childItems, children,
    represents.shows.filterMap_item? (Grove.mem_labels_of_mem_children placed)]

/-- The items below the top are those of the trees themselves. -/
theorem childItems_top : childItems store top = forest.trees.roots.map Planted.item := by
  rw [childItems, represents.children_top, tops, represents.shows.filterMap_item?]
  exact fun root listed => (Grove.roots_sublist_labels _).subset listed

/-- The parent's item is that just above the place. -/
theorem parentItem?_eq :
    ∀ place ∈ forest.trees.places,
      parentItem? store place.label.slot = place.parent?.map Planted.item := by
  intro place placed
  rw [parentItem?, (represents.ascends place placed).parent?_eq, Grove.Place.parent?]
  cases higher : place.above with
  | nil => exact represents.item?_top
  | cons parent far =>
    refine represents.shows.item?_eq (Grove.mem_labels_of_mem_above placed parent ?_)
    rw [higher]
    exact List.mem_cons_self

/-- A label that is above a place is on the way up from its node. -/
theorem isAbove_iff {place : Grove.Place (Planted α)} (placed : place ∈ forest.trees.places)
    {outer : Planted α} (present : outer ∈ forest.trees.labels) :
    store.IsAbove outer.slot place.label.slot ↔ outer ∈ place.above := by
  have distinct := (List.nodup_cons.mp represents.hangs.distinct).2
  have inner : outer.slot ≠ top := by
    intro same
    exact represents.top_not_mem (same ▸ List.mem_map_of_mem present)
  rw [(represents.ascends place placed).isAbove_iff, List.mem_append, List.mem_singleton,
    or_iff_left inner]
  constructor
  · intro listed
    obtain ⟨other, higher, same⟩ := List.mem_map.mp listed
    have label := Grove.mem_labels_of_mem_above placed other higher
    rwa [List.inj_on_of_nodup_map distinct label present same] at higher
  · exact List.mem_map_of_mem

/-- An item in a slot is that of a place. -/
theorem exists_place {slot : Slot} {item : α} (holds : item? store slot = some item) :
    ∃ place ∈ forest.trees.places, place.label = ⟨slot, item⟩ := by
  obtain ⟨node, found, -⟩ := Option.bind_eq_some_iff.mp holds
  have inner : slot ≠ top := by
    rintro rfl
    exact absurd (represents.item?_top.symm.trans holds) (by simp)
  obtain ⟨planted, listed, rfl⟩ := List.mem_map.mp
    ((represents.mem_slots_iff slot).mpr ⟨inner, NodeStore.lt_size_of_node? found⟩)
  obtain ⟨place, placed, label⟩ := Grove.exists_place_of_mem_labels [] listed
  refine ⟨place, placed, label.trans ?_⟩
  obtain rfl := Option.some.inj ((represents.shows.item?_eq listed).symm.trans holds)
  rfl

/-! ## Checks -/

/-- The slots after that of the top are those of the places. -/
theorem preorder_eq_places :
    store.preorder = top :: forest.trees.places.map fun place => place.label.slot := by
  rw [represents.preorder_eq, slots, ← Grove.map_label_places, List.map_map]
  rfl

/-- The items that are asked about those above them are those of the forest. -/
theorem ancestorPairs_eq : ancestorPairs store = forest.ancestorPairs := by
  rw [ancestorPairs, represents.preorder_eq_places, List.flatMap_cons, represents.item?_top,
    List.flatMap_map]
  refine List.flatMap_congr fun place placed => ?_
  have label := Grove.label_mem_of_mem_placesBelow placed
  rw [represents.shows.item?_eq label, represents.itemsAbove_eq place placed]
  simp

/-- The pairs of siblings are those of the forest. -/
theorem siblingPairs_eq : siblingPairs store = forest.siblingPairs := by
  rw [siblingPairs, represents.preorder_eq_places, Forest.siblingPairs, List.flatMap_cons,
    List.flatMap_cons, represents.childItems_top, List.flatMap_map, List.flatMap_map]
  refine congrArg (_ ++ ·) (List.flatMap_congr fun place placed => ?_)
  rw [represents.childItems_eq place placed]

/-- A check by links asks what a check of the forest asks, and ends in the same way and state. -/
theorem disagreement?_eq (contains : Relation σ α) :
    disagreement? contains store = forest.disagreement? contains := by
  rw [disagreement?, represents.ancestorPairs_eq, represents.siblingPairs_eq]
  rfl

end Represents

end Laminar.LinkedForest
