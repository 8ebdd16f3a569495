import Laminar.Forest.Linked
import Laminar.Proofs.Forest.Landing
import Laminar.Proofs.NodeStore

/-!
# The links of a forest

Trees hang on a node of a linked forest if the links of the node and of all nodes below are those
of the trees (`Hangs`). Each way to place an item moves links so that the trees that then hang on
the node are those of the grove after the same step, and no node outside of these trees changes
(`Rework`).
-/

namespace Laminar.LinkedForest

open Forest (Planted)

variable {α : Type}

/-! ## Nodes after a placement -/

/-- Putting an item above a node makes one node. -/
theorem size_wrapNode (store : LinkedForest α) (current : Slot) (item : α) :
    (wrapNode store current item).size = store.size + 1 := by
  unfold wrapNode
  rw [NodeStore.size_adopt]
  split <;> simp

/-- Putting an item above a node leaves the root where it is. -/
theorem root_wrapNode (store : LinkedForest α) (current : Slot) (item : α) :
    (wrapNode store current item).root = store.root := by
  unfold wrapNode
  rw [NodeStore.root_adopt]
  split <;> simp

section Nodes

variable {store : LinkedForest α} {current : Slot} {node : Node (Option α)}
  (found : store.node? current = some node)

include found

/-- The item is where the node was, and the node is its child. -/
theorem node?_wrapNode {parent : Slot} {upper : Node (Option α)}
    (linked : node.parent = some parent) (above : store.node? parent = some upper)
    (listed : current ∈ upper.children) (different : current ≠ parent) (item : α) (slot : Slot) :
    (wrapNode store current item).node? slot =
      if slot = store.size then some ⟨some item, some parent, [current]⟩
      else if slot = current then some { node with parent := some store.size }
      else if slot = parent then
        some { upper with
          children := NodeStore.replaceFirst current store.size upper.children }
      else store.node? slot := by
  have old := NodeStore.lt_size_of_node? found
  have oldParent := NodeStore.lt_size_of_node? above
  have added : (store.addDetached (some item)).node? current = some node := by
    rw [NodeStore.node?_addDetached, if_neg (Nat.ne_of_lt old), found]
  have addedParent : (store.addDetached (some item)).node? parent = some upper := by
    rw [NodeStore.node?_addDetached, if_neg (Nat.ne_of_lt oldParent), above]
  have listedStill : current ∈ (store.addDetached (some item)).children parent := by
    rw [NodeStore.children_of_node? addedParent]
    exact listed
  have way : (store.addDetached (some item)).parent? current = some parent := by
    rw [NodeStore.parent?, added]
    exact linked
  have result : wrapNode store current item =
      ((store.addDetached (some item)).replaceChild parent current store.size).1.adopt store.size
        current := by
    simp only [wrapNode, way, NodeStore.nextSlot]
  rw [result, NodeStore.node?_adopt _ (Nat.ne_of_gt old),
    NodeStore.node?_replaceChild _ listedStill (Nat.ne_of_gt oldParent) different
      (Nat.ne_of_lt old)]
  by_cases new : slot = store.size
  · subst new
    have otherNode : store.size ≠ current := Nat.ne_of_gt old
    simp [otherNode, NodeStore.node?_addDetached]
  · by_cases wrapped : slot = current
    · subst wrapped
      simp [new, added]
    · by_cases outer : slot = parent
      · subst outer
        simp [new, wrapped, addedParent]
      · simp [new, wrapped, outer, NodeStore.node?_addDetached]

/-- The item is the last child of the node and has the chosen children, and the node has the
others. -/
theorem node?_wrapChildren {chosen : List Slot} (within : ∀ child ∈ chosen, child ∈ node.children)
    (present : ∀ child ∈ node.children, child < store.size) (apart : current ∉ node.children)
    (item : α) (slot : Slot) :
    (wrapChildren store current chosen item).node? slot =
      if slot = store.size then
        some ⟨some item, some current, node.children.filter (· ∈ chosen)⟩
      else if slot = current then
        some { node with children := node.children.filter (· ∉ chosen) ++ [store.size] }
      else if slot ∈ chosen then (store.node? slot).map ({ · with parent := some store.size })
      else store.node? slot := by
  have old := NodeStore.lt_size_of_node? found
  have children := NodeStore.children_of_node? found
  have mem_taken : ∀ slot, slot ∈ node.children.filter (· ∈ chosen) ↔ slot ∈ chosen := by
    intro slot
    rw [List.mem_filter, decide_eq_true_eq]
    exact ⟨fun both => both.2, fun taken => ⟨within slot taken, taken⟩⟩
  have fresh : store.size ∉ node.children.filter (· ∈ chosen) := by
    intro listed
    exact Nat.lt_irrefl _ (present _ (List.mem_of_mem_filter listed))
  have apartStill : current ∉ store.children current := by
    rw [children]
    exact apart
  have result : wrapChildren store current chosen item =
      ((store.takeChildren current (· ∈ chosen)).1.add (some item) (some current)).setChildren
        store.size (node.children.filter (· ∈ chosen)) := by
    simp only [wrapChildren, NodeStore.nextSlot, NodeStore.size_takeChildren]
    rw [NodeStore.takeChildren, children, List.partition_eq_filter_filter]
  rw [result, NodeStore.node?_setChildren _ fresh,
    NodeStore.node?_add _ _ (by rw [NodeStore.size_takeChildren]; exact old),
    NodeStore.size_takeChildren, NodeStore.node?_takeChildren _ apartStill, children]
  simp only [mem_taken]
  by_cases new : slot = store.size
  · simp [new]
  · by_cases here : slot = current
    · subst here
      have kept : slot ∉ chosen := fun taken => apart (within slot taken)
      simp [new, found, kept]
    · by_cases taken : slot ∈ chosen
      · simp only [new, here, taken, ↓reduceIte, Option.map_map]
        rfl
      · simp [new, here, taken]

end Nodes

/-! ## Trees and their links -/

/-- The slots of the items of some trees. -/
def slots (trees : Grove (Planted α)) : List Slot :=
  trees.labels.map Planted.slot

/-- The slots of the trees themselves. -/
def tops (trees : Grove (Planted α)) : List Slot :=
  trees.roots.map Planted.slot

/-- The slots of a tree and of the trees beside it. -/
@[simp]
theorem slots_node (planted : Planted α) (below beside : Grove (Planted α)) :
    slots (.node planted below beside) = planted.slot :: (slots below ++ slots beside) := by
  simp [slots, Grove.labels]

/-- The slots of groves beside each other. -/
@[simp]
theorem slots_append (left right : Grove (Planted α)) :
    slots (left ++ right) = slots left ++ slots right := by
  simp [slots]

/-- The top of a tree and those of the trees beside it. -/
@[simp]
theorem tops_node (planted : Planted α) (below beside : Grove (Planted α)) :
    tops (.node planted below beside) = planted.slot :: tops beside :=
  rfl

/-- The tops of groves beside each other. -/
@[simp]
theorem tops_append (left right : Grove (Planted α)) :
    tops (left ++ right) = tops left ++ tops right := by
  simp [tops]

/-- The tops are slots of the trees, in the same order. -/
theorem tops_sublist_slots (trees : Grove (Planted α)) : (tops trees).Sublist (slots trees) :=
  (Grove.roots_sublist_labels trees).map Planted.slot

/-- The nodes of some trees below `owner` have the items of the trees and the links between them. -/
def Shows (store : LinkedForest α) (owner : Slot) : Grove (Planted α) → Prop
  | .nil => True
  | .node planted below beside =>
    store.node? planted.slot = some ⟨some planted.item, some owner, tops below⟩ ∧
      Shows store planted.slot below ∧ Shows store owner beside

namespace Shows

variable {store after : LinkedForest α} {owner : Slot} {trees : Grove (Planted α)}

/-- A forest shows groves beside each other if and only if it shows either. -/
@[simp]
theorem append_iff {left right : Grove (Planted α)} :
    Shows store owner (left ++ right) ↔ Shows store owner left ∧ Shows store owner right := by
  induction left with
  | nil => simp [Shows]
  | node planted below beside _ later => simp [Shows, later, and_assoc]

/-- Nodes that do not change go on to show the trees. -/
theorem congr (shows : Shows store owner trees)
    (same : ∀ slot ∈ slots trees, after.node? slot = store.node? slot) :
    Shows after owner trees := by
  induction trees generalizing owner with
  | nil => trivial
  | node planted below beside inner later =>
    obtain ⟨here, lower, right⟩ := shows
    simp only [slots_node, List.forall_mem_cons, List.forall_mem_append] at same
    obtain ⟨first, others, rest⟩ := same
    exact ⟨first.trans here, inner lower others, later right rest⟩

/-- Nodes that change only in the parent of the trees themselves show the trees below the new
parent. -/
theorem moved (shows : Shows store owner trees) {parent : Slot}
    (distinct : (slots trees).Nodup)
    (tops_moved : ∀ slot ∈ tops trees,
      after.node? slot = (store.node? slot).map ({ · with parent := some parent }))
    (same : ∀ slot ∈ slots trees, slot ∉ tops trees → after.node? slot = store.node? slot) :
    Shows after parent trees := by
  induction trees with
  | nil => trivial
  | node planted below beside _ later =>
    obtain ⟨here, lower, right⟩ := shows
    rw [slots_node, List.nodup_cons, List.nodup_append] at distinct
    obtain ⟨apart, -, others, between⟩ := distinct
    simp only [tops_node, List.forall_mem_cons] at tops_moved
    refine ⟨?_, lower.congr fun slot inside => ?_, later right others tops_moved.2 ?_⟩
    · rw [tops_moved.1, here]
      rfl
    · apply same slot (by simp [inside])
      intro top
      rcases List.mem_cons.mp top with rfl | top
      · exact apart (List.mem_append_left _ inside)
      · exact between slot inside slot ((tops_sublist_slots beside).subset top) rfl
    · intro slot inside below_top
      apply same slot (by simp [inside])
      intro top
      rcases List.mem_cons.mp top with rfl | top
      · exact apart (List.mem_append_right _ inside)
      · exact below_top top

/-- The item of a tree is in its slot. -/
theorem item?_eq (shows : Shows store owner trees) {planted : Planted α}
    (present : planted ∈ trees.labels) : item? store planted.slot = some planted.item := by
  induction trees generalizing owner with
  | nil => contradiction
  | node top below beside inner later =>
    obtain ⟨here, lower, right⟩ := shows
    simp only [Grove.labels, List.mem_cons, List.mem_append] at present
    rcases present with rfl | present | present
    · rw [item?, here]
      rfl
    · exact inner lower present
    · exact later right present

/-- The slots of the trees have nodes. -/
theorem lt_size (shows : Shows store owner trees) : ∀ slot ∈ slots trees, slot < store.size := by
  unfold slots
  rw [List.forall_mem_map]
  intro planted present
  have item := shows.item?_eq present
  cases found : store.node? planted.slot with
  | none => simp [item?, found] at item
  | some node => exact NodeStore.lt_size_of_node? found

/-- The trees of a division are shown if all trees are. -/
theorem separated_iff {chosen : Planted α → Bool → Prop} {taken kept : Grove (Planted α)}
    (separated : trees.Separated chosen taken kept) :
    Shows store owner trees ↔ Shows store owner kept ∧ Shows store owner taken := by
  induction separated with
  | nil => simp [Shows]
  | take _ _ later => simp only [Shows, later]; tauto
  | keep _ _ later => simp only [Shows, later]; tauto

end Shows

/-- Trees hang on the node in a slot: the node has their links, the nodes below show the trees, and
the slots are distinct ones. -/
structure Hangs (store : LinkedForest α) (owner : Slot) (trees : Grove (Planted α)) : Prop where
  /-- The node links to the trees. -/
  links : ∃ label parent, store.node? owner = some ⟨label, parent, tops trees⟩
  /-- The nodes below show the trees. -/
  shows : Shows store owner trees
  /-- No slot comes twice. -/
  distinct : (owner :: slots trees).Nodup

/-- A linked forest in which the trees that hang on the node in a slot have changed and one node has
been added, with no other change. -/
structure Rework (store after : LinkedForest α) (owner : Slot) (old grown : Grove (Planted α)) :
    Prop where
  /-- The node links to the new trees. -/
  links : after.node? owner =
    (store.node? owner).map fun node => { node with children := tops grown }
  /-- The nodes below show the new trees. -/
  shows : Shows after owner grown
  /-- Other nodes have not changed. -/
  others : ∀ slot, slot ≠ store.size → slot ≠ owner → slot ∉ slots old →
    after.node? slot = store.node? slot
  /-- One node is new. -/
  size : after.size = store.size + 1
  /-- The root is where it was. -/
  root : after.root = store.root

/-- The trees below the first one hang on its node. -/
theorem Hangs.below {store : LinkedForest α} {owner : Slot} {left below right : Grove (Planted α)}
    {child : Planted α} (hangs : Hangs store owner (left ++ .node child below right)) :
    Hangs store child.slot below := by
  obtain ⟨-, shows, distinct⟩ := hangs
  obtain ⟨-, here, lower, -⟩ := Shows.append_iff.mp shows
  refine ⟨⟨_, _, here⟩, lower, ?_⟩
  refine distinct.sublist (List.Sublist.cons owner ?_)
  rw [slots_append, slots_node]
  exact ((List.sublist_append_left _ _).cons_cons child.slot).trans (List.sublist_append_right _ _)

/-- The division of the trees divides the links. -/
theorem filter_tops {chosen : Planted α → Bool → Prop} {trees taken kept : Grove (Planted α)}
    (separated : trees.Separated chosen taken kept) (distinct : (tops trees).Nodup) :
    (tops trees).filter (· ∈ tops taken) = tops taken ∧
      (tops trees).filter (· ∉ tops taken) = tops kept := by
  induction separated with
  | nil => exact ⟨rfl, rfl⟩
  | @take planted below beside taken kept choice others later =>
    obtain ⟨apart, distinct⟩ := List.nodup_cons.mp distinct
    obtain ⟨chosen_tops, other_tops⟩ := later distinct
    have same : ∀ slot ∈ tops beside, slot ∈ planted.slot :: tops taken ↔ slot ∈ tops taken := by
      intro slot present
      rw [List.mem_cons, or_iff_right]
      rintro rfl
      exact apart present
    have taken_same : ∀ slot ∈ tops beside,
        decide (slot ∈ planted.slot :: tops taken) = decide (slot ∈ tops taken) :=
      fun slot present => decide_eq_decide.mpr (same slot present)
    have kept_same : ∀ slot ∈ tops beside,
        decide (slot ∉ planted.slot :: tops taken) = decide (slot ∉ tops taken) :=
      fun slot present => decide_eq_decide.mpr (not_congr (same slot present))
    rw [tops_node, tops_node]
    constructor
    · rw [List.filter_cons_of_pos (by simp), List.filter_congr taken_same, chosen_tops]
    · rw [List.filter_cons_of_neg (by simp), List.filter_congr kept_same, other_tops]
  | @keep planted below beside taken kept choice others later =>
    obtain ⟨apart, distinct⟩ := List.nodup_cons.mp distinct
    obtain ⟨chosen_tops, other_tops⟩ := later distinct
    have refused : planted.slot ∉ tops taken := by
      intro present
      rw [← chosen_tops] at present
      exact apart (List.mem_of_mem_filter present)
    rw [tops_node, tops_node]
    constructor
    · rw [List.filter_cons_of_neg (by simpa using refused), chosen_tops]
    · rw [List.filter_cons_of_pos (by simpa using refused), other_tops]

/-! ## Placements -/

namespace Rework

variable {store after : LinkedForest α} {owner : Slot} {trees left below right : Grove (Planted α)}
  {child : Planted α} (item : α)

/-- A new last child. -/
theorem newSibling (hangs : Hangs store owner trees) :
    Rework store (store.add (some item) (some owner)) owner trees
      (trees ++ .tree ⟨store.size, item⟩ .nil) := by
  obtain ⟨⟨label, parent, found⟩, shows, distinct⟩ := hangs
  have present := NodeStore.lt_size_of_node? found
  have after := NodeStore.node?_add store (some item) present
  constructor
  case links =>
    rw [after, if_neg (Nat.ne_of_lt present), if_pos rfl, found, tops_append]
    rfl
  case shows =>
    refine Shows.append_iff.mpr ⟨shows.congr fun slot inside => ?_, ?_, trivial, trivial⟩
    · have old := shows.lt_size slot inside
      have other : slot ≠ owner := by
        rintro rfl
        exact (List.nodup_cons.mp distinct).1 inside
      rw [after, if_neg (Nat.ne_of_lt old), if_neg other]
    · show (store.add (some item) (some owner)).node? store.size = _
      rw [after, if_pos rfl]
      rfl
  case others =>
    intro slot old other _
    rw [after, if_neg old, if_neg other]
  case size => exact NodeStore.size_add store (some item) (some owner)
  case root => rfl

/-- Some trees are taken over. -/
theorem wrapChildren (hangs : Hangs store owner trees) {chosen : Planted α → Bool → Prop}
    {taken kept : Grove (Planted α)} (separated : trees.Separated chosen taken kept) :
    Rework store (wrapChildren store owner (tops taken) item) owner trees
      (kept ++ .tree ⟨store.size, item⟩ taken) := by
  obtain ⟨⟨label, parent, found⟩, shows, distinct⟩ := hangs
  obtain ⟨apart, inner_distinct⟩ := List.nodup_cons.mp distinct
  obtain ⟨shows_kept, shows_taken⟩ := (Shows.separated_iff separated).mp shows
  have divided : (slots trees).Perm (slots kept ++ slots taken) := by
    rw [slots, slots, slots, ← List.map_append]
    exact separated.labels_perm.map Planted.slot
  obtain ⟨-, taken_distinct, between⟩ :=
    List.nodup_append.mp (divided.nodup_iff.mp inner_distinct)
  obtain ⟨taken_tops, kept_tops⟩ :=
    filter_tops separated (inner_distinct.sublist (tops_sublist_slots trees))
  have within : ∀ slot ∈ tops taken, slot ∈ tops trees := by
    intro slot present
    rw [← taken_tops] at present
    exact List.mem_of_mem_filter present
  have tops_inside : ∀ slot ∈ tops trees, slot ∈ slots trees :=
    fun slot top => (tops_sublist_slots trees).subset top
  have after := node?_wrapChildren found within
    (fun slot top => shows.lt_size slot (tops_inside slot top))
    (fun top => apart (tops_inside owner top)) item
  rw [taken_tops, kept_tops] at after
  have old : ∀ slot ∈ slots trees, slot ≠ store.size ∧ slot ≠ owner := by
    intro slot inside
    refine ⟨Nat.ne_of_lt (shows.lt_size slot inside), ?_⟩
    rintro rfl
    exact apart inside
  have owner_old := Nat.ne_of_lt (NodeStore.lt_size_of_node? found)
  constructor
  case links =>
    rw [after, if_neg owner_old, if_pos rfl, found, tops_append]
    rfl
  case shows =>
    refine Shows.append_iff.mpr ⟨shows_kept.congr fun slot inside => ?_, ?_, ?_, trivial⟩
    · obtain ⟨new, other⟩ := old slot (divided.mem_iff.mpr (List.mem_append_left _ inside))
      have left : slot ∉ tops taken := fun top =>
        between slot inside slot ((tops_sublist_slots taken).subset top) rfl
      rw [after, if_neg new, if_neg other, if_neg left]
    · show (LinkedForest.wrapChildren store owner (tops taken) item).node? store.size = _
      rw [after, if_pos rfl]
    · refine shows_taken.moved taken_distinct (fun slot top => ?_) fun slot inside lower => ?_
      · obtain ⟨new, other⟩ := old slot (tops_inside slot (within slot top))
        rw [after, if_neg new, if_neg other, if_pos top]
      · obtain ⟨new, other⟩ := old slot (divided.mem_iff.mpr (List.mem_append_right _ inside))
        rw [after, if_neg new, if_neg other, if_neg lower]
  case others =>
    intro slot new other outside
    have left : slot ∉ tops taken := fun top => outside (tops_inside slot (within slot top))
    rw [after, if_neg new, if_neg other, if_neg left]
  case size => simp [LinkedForest.wrapChildren]
  case root => simp [LinkedForest.wrapChildren]

/-- A tree gets a new top in its place. The slots beside and below the child are old, and neither
the child's nor the owner's, so nothing changes there. -/
theorem wrapNode (hangs : Hangs store owner (left ++ .node child below right)) :
    Rework store (wrapNode store child.slot item) owner (left ++ .node child below right)
      (left ++ .node ⟨store.size, item⟩ (.tree child below) right) := by
  obtain ⟨⟨label, parent, found⟩, shows, distinct⟩ := hangs
  obtain ⟨apart, inner_distinct⟩ := List.nodup_cons.mp distinct
  obtain ⟨shows_left, here, lower, shows_right⟩ := Shows.append_iff.mp shows
  rw [tops_append, tops_node] at found
  rw [slots_append, slots_node] at inner_distinct
  obtain ⟨-, others_distinct, between⟩ := List.nodup_append.mp inner_distinct
  obtain ⟨first, -⟩ := List.nodup_cons.mp others_distinct
  have child_left : child.slot ∉ slots left :=
    fun inside => between child.slot inside child.slot List.mem_cons_self rfl
  have child_inside : child.slot ∈ slots (left ++ .node child below right) := by simp
  have other : child.slot ≠ owner := by
    rintro same
    exact apart (same ▸ child_inside)
  have after := node?_wrapNode here rfl found
    (List.mem_append_right _ List.mem_cons_self) other item
  rw [NodeStore.replaceFirst_append fun top => child_left ((tops_sublist_slots left).subset top)]
    at after
  have same : ∀ slot ∈ slots (left ++ .node child below right), slot ≠ child.slot →
      (LinkedForest.wrapNode store child.slot item).node? slot = store.node? slot := by
    intro slot inside different
    have outer : slot ≠ owner := by
      rintro rfl
      exact apart inside
    rw [after, if_neg (Nat.ne_of_lt (shows.lt_size slot inside)), if_neg different, if_neg outer]
  simp only [slots_append, slots_node, List.forall_mem_append, List.forall_mem_cons] at same
  obtain ⟨same_left, -, same_below, same_right⟩ := same
  have child_old := Nat.ne_of_lt (NodeStore.lt_size_of_node? here)
  have owner_old := Nat.ne_of_lt (NodeStore.lt_size_of_node? found)
  constructor
  case links =>
    rw [after, if_neg owner_old, if_neg other.symm, if_pos rfl, found, tops_append]
    rfl
  case shows =>
    refine Shows.append_iff.mpr ⟨shows_left.congr ?_, ?_, ⟨?_, lower.congr ?_, trivial⟩,
      shows_right.congr ?_⟩
    · intro slot inside
      apply same_left slot inside
      rintro rfl
      exact child_left inside
    · show (LinkedForest.wrapNode store child.slot item).node? store.size = _
      rw [after, if_pos rfl]
      rfl
    · rw [after, if_neg child_old, if_pos rfl]
    · intro slot inside
      apply same_below slot inside
      rintro rfl
      exact first (List.mem_append_left _ inside)
    · intro slot inside
      apply same_right slot inside
      rintro rfl
      exact first (List.mem_append_right _ inside)
  case others =>
    intro slot new outer outside
    have different : slot ≠ child.slot := by
      rintro rfl
      exact outside child_inside
    rw [after, if_neg new, if_neg different, if_neg outer]
  case size => exact size_wrapNode store child.slot item
  case root => exact root_wrapNode store child.slot item

omit item in
/-- A change below the first tree is a change of the trees. -/
theorem descend {grown : Grove (Planted α)}
    (hangs : Hangs store owner (left ++ .node child below right))
    (rework : Rework store after child.slot below grown) :
    Rework store after owner (left ++ .node child below right)
      (left ++ .node child grown right) := by
  obtain ⟨⟨label, parent, found⟩, shows, distinct⟩ := hangs
  obtain ⟨apart, inner_distinct⟩ := List.nodup_cons.mp distinct
  obtain ⟨shows_left, here, lower, shows_right⟩ := Shows.append_iff.mp shows
  rw [slots_append, slots_node] at inner_distinct apart
  obtain ⟨-, others_distinct, between⟩ := List.nodup_append.mp inner_distinct
  obtain ⟨first, below_distinct⟩ := List.nodup_cons.mp others_distinct
  obtain ⟨-, -, across⟩ := List.nodup_append.mp below_distinct
  have outside : ∀ slot, slot < store.size → slot ≠ child.slot → slot ∉ slots below →
      after.node? slot = store.node? slot :=
    fun slot old => rework.others slot (Nat.ne_of_lt old)
  have owner_same : after.node? owner = store.node? owner := by
    apply outside owner (NodeStore.lt_size_of_node? found)
    · rintro rfl
      exact apart (by simp)
    · exact fun inside => apart (by simp [inside])
  constructor
  case links =>
    rw [owner_same, found]
    simp
  case shows =>
    refine Shows.append_iff.mpr ⟨shows_left.congr ?_, ?_, rework.shows, shows_right.congr ?_⟩
    · intro slot inside
      apply outside slot (shows_left.lt_size slot inside)
      · rintro rfl
        exact between child.slot inside child.slot List.mem_cons_self rfl
      · intro lower_inside
        exact between slot inside slot (by simp [lower_inside]) rfl
    · rw [rework.links, here]
      rfl
    · intro slot inside
      apply outside slot (shows_right.lt_size slot inside)
      · rintro rfl
        exact first (List.mem_append_right _ inside)
      · exact fun lower_inside => across slot lower_inside slot inside rfl
  case others =>
    intro slot new _ none_inside
    rw [slots_append, slots_node] at none_inside
    apply rework.others slot new
    · rintro rfl
      exact none_inside (by simp)
    · exact fun inside => none_inside (by simp [inside])
  case size => exact rework.size
  case root => exact rework.root

end Rework

end Laminar.LinkedForest
