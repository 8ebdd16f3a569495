import Mathlib.Data.List.Nodup
import Mathlib.Logic.Relation
import Laminar.Proofs.NodeStore.Descent

/-!
# Links that agree

Links go both ways in a store, from a node to its children and from a child to its parent, and an
operation changes the two directions one after the other. They agree in a store that is well linked
(`WellLinked`). Every operation that moves links gives one node other children (`Relinked`), so that
one theorem says when all of them keep a store well linked (`WellLinked.relink`).
-/

namespace Laminar.NodeStore

open scoped List

variable {α : Type} {store after : NodeStore α} {parent child slot : Slot} {children : List Slot}

/-- The links of a store agree: a node is once among the children of the node that it names as its
parent and not at all among those of another, and the parents form no cycle. -/
structure WellLinked (store : NodeStore α) : Prop where
  /-- A child is listed once by the parent that it names, and by no other node. -/
  once : ∀ owner child, (store.children owner).count child =
    if store.parent? child = some owner then 1 else 0
  /-- From every node the parents lead up to one that has none. -/
  grounded : store.Grounded

/-- There is no node in a slot beyond those in use. -/
theorem node?_eq_none_iff : store.node? slot = none ↔ store.size ≤ slot :=
  Array.getElem?_eq_none_iff

/-- There is a node in every slot in use. -/
theorem exists_node?_of_lt_size (present : slot < store.size) :
    ∃ node, store.node? slot = some node :=
  ⟨_, Array.getElem?_eq_getElem present⟩

/-- No node is reached from itself along the parents. -/
theorem Grounded.acyclic (grounded : store.Grounded) (slot : Slot) :
    ¬ Relation.TransGen (fun lower upper => store.parent? lower = some upper) slot slot := by
  have listed : ∀ {lower upper}, Relation.TransGen
      (fun lower upper => store.parent? lower = some upper) lower upper →
      ∀ above, Ascends store lower above → upper ∈ above := by
    intro lower upper chain
    induction chain using Relation.TransGen.head_induction_on with
    | single named =>
      rintro _ (⟨-, ends⟩ | ⟨same, -⟩)
      · exact absurd (ends.symm.trans named) (by simp)
      · exact Option.some.inj (same.symm.trans named) ▸ List.mem_cons_self
    | head named _ later =>
      rintro _ (⟨-, ends⟩ | ⟨same, higher⟩)
      · exact absurd (ends.symm.trans named) (by simp)
      · obtain rfl := Option.some.inj (same.symm.trans named)
        exact List.mem_cons_of_mem _ (later _ higher)
  intro cycle
  have present : slot < store.size := by
    obtain ⟨upper, named, -⟩ := Relation.TransGen.head'_iff.mp cycle
    exact lt_size_of_parent? named
  obtain ⟨above, ascends⟩ := grounded slot present
  exact ascends.not_mem (listed cycle above ascends)

namespace WellLinked

variable (linked : store.WellLinked)

include linked

/-- A node lists another as a child if and only if the other names it as its parent. -/
theorem mem_children_iff (owner child : Slot) :
    child ∈ store.children owner ↔ store.parent? child = some owner := by
  rw [← List.count_pos_iff, linked.once]
  split <;> simp_all

/-- No node lists a child twice. -/
theorem nodup_children (owner : Slot) : (store.children owner).Nodup := by
  rw [List.nodup_iff_count_le_one]
  intro child
  rw [linked.once]
  split <;> decide

/-- No node lists itself as a child. -/
theorem not_mem_children_self (owner : Slot) : owner ∉ store.children owner := by
  rw [linked.mem_children_iff]
  exact linked.grounded.parent?_ne owner

/-- What is below a node that names no parent is a tree. -/
theorem treeBelow {root : Slot} (present : root < store.size)
    (parentless : store.parent? root = none) : store.TreeBelow root := by
  constructor
  case present => exact present
  case parentless => exact parentless
  case once => exact fun _ slot _ => linked.nodup_children slot
  case named => exact fun _ slot _ child listed => (linked.mem_children_iff slot child).mp listed

end WellLinked

/-- A store without nodes is well linked. -/
theorem wellLinked_empty : (empty : NodeStore α).WellLinked := by
  constructor
  case once => intro owner child; simp [children, parent?, node?, empty]
  case grounded => exact fun slot present => absurd present (Nat.not_lt_zero slot)

/-! ## A new node -/

section Added

variable {label : α} (nodes : ∀ slot, after.node? slot =
    if slot = store.size then some ⟨label, none, []⟩ else store.node? slot)
  (size : after.size = store.size + 1)

include nodes

/-- A new node without links changes no list of children. -/
theorem children_added (slot : Slot) : after.children slot = store.children slot := by
  rw [NodeStore.children, NodeStore.children, nodes]
  by_cases new : slot = store.size
  · rw [if_pos new, node?_eq_none_iff.mpr (Nat.le_of_eq new.symm)]
  · rw [if_neg new]

/-- A new node without links changes no parent. -/
theorem parent?_added (slot : Slot) : after.parent? slot = store.parent? slot := by
  rw [parent?, parent?, nodes]
  by_cases new : slot = store.size
  · rw [if_pos new, node?_eq_none_iff.mpr (Nat.le_of_eq new.symm)]
    rfl
  · rw [if_neg new]

include size

/-- A new node without links comes between no nodes. -/
theorem interposed_added : Interposed store after none [] := by
  constructor
  case size => exact size
  case parent => rw [parent?, nodes, if_pos rfl]; rfl
  case old => simp
  case before => simp
  case moved => simp
  case others => intro slot old _; rw [parent?, parent?, nodes, if_neg old]

/-- A store stays well linked with a new node that has no links. -/
theorem WellLinked.added (linked : store.WellLinked) : after.WellLinked := by
  constructor
  case once =>
    intro owner child
    rw [children_added nodes, parent?_added nodes]
    exact linked.once owner child
  case grounded =>
    intro slot present
    by_cases new : slot = store.size
    · refine ⟨[], .last present ?_⟩
      rw [new]
      exact (interposed_added nodes size).parent
    · obtain ⟨above, ascends⟩ := linked.grounded slot (by omega)
      obtain ⟨grown, longer, -⟩ := (interposed_added nodes size).ascends ascends
      exact ⟨grown, longer⟩

end Added

/-! ## Other children for one node -/

/-- A node without a parent that can be put below another: it is neither the other one nor above
it. -/
structure IsLoose (store : NodeStore α) (parent child : Slot) : Prop where
  /-- There is such a node. -/
  present : child < store.size
  /-- It names no parent. -/
  free : store.parent? child = none
  /-- It is not the other node. -/
  other : child ≠ parent
  /-- It is not above the other node. -/
  apart : ¬ store.IsAbove child parent

/-- The node in one slot has got other children. Its new children name it as their parent, the
former ones name none, and nothing else has changed. -/
structure Relinked (store after : NodeStore α) (parent : Slot) (children : List Slot) : Prop where
  /-- There are as many nodes as before. -/
  size : after.size = store.size
  /-- The node has the children. -/
  upper : after.node? parent = (store.node? parent).map ({ · with children })
  /-- A new child names the node. -/
  joined : ∀ slot ∈ children, slot ∉ store.children parent →
    after.node? slot = (store.node? slot).map ({ · with parent := some parent })
  /-- A former child names none. -/
  left : ∀ slot ∈ store.children parent, slot ∉ children →
    after.node? slot = (store.node? slot).map ({ · with parent := none })
  /-- All other nodes are as they were. -/
  others : ∀ slot, slot ≠ parent → (slot ∈ children ↔ slot ∈ store.children parent) →
    after.node? slot = store.node? slot

/-- Nodes that name the parent that they have named, or none, still have a way up if all above them
do so too. -/
theorem Ascends.shortened {above : List Slot} (ascends : Ascends store slot above)
    (size : after.size = store.size)
    (kept : ∀ other ∈ slot :: above,
      after.parent? other = store.parent? other ∨ after.parent? other = none) :
    ∃ shorter, Ascends after slot shorter := by
  induction ascends with
  | @last slot present ends =>
    have still : slot < after.size := by rw [size]; exact present
    have none : after.parent? slot = none := by
      rcases kept slot List.mem_cons_self with same | none
      · exact same.trans ends
      · exact none
    exact ⟨[], .last still none⟩
  | @up slot upper above named higher later =>
    obtain ⟨shorter, way⟩ := later fun other listed => kept other (List.mem_cons_of_mem slot listed)
    rcases kept slot List.mem_cons_self with same | none
    · exact ⟨upper :: shorter, .up (same.trans named) way⟩
    · have still : slot < after.size := by rw [size]; exact lt_size_of_parent? named
      exact ⟨[], .last still none⟩

/-- If each node names its old parent, or none, or one certain node that it is not above, there is
still a way up from every node. The way up from the certain node is as it was, because no node on it
has got this node as a parent. -/
theorem Grounded.relink (grounded : store.Grounded) (size : after.size = store.size)
    (present : parent < store.size)
    (links : ∀ slot, after.parent? slot = store.parent? slot ∨ after.parent? slot = none ∨
      after.parent? slot = some parent ∧ slot ≠ parent ∧ ¬ store.IsAbove slot parent) :
    after.Grounded := by
  have way_up : ∃ shorter, Ascends after parent shorter := by
    obtain ⟨above, ascends⟩ := grounded parent present
    refine ascends.shortened size fun other listed => ?_
    rcases links other with same | none | ⟨-, different, apart⟩
    · exact .inl same
    · exact .inr none
    · rw [ascends.isAbove_iff] at apart
      exact absurd listed (by simp [different, apart])
  obtain ⟨far, higher⟩ := way_up
  intro slot there
  obtain ⟨above, ascends⟩ := grounded slot (size ▸ there)
  induction ascends with
  | @last slot _ ends =>
    rcases links slot with same | none | ⟨named, -⟩
    · exact ⟨[], .last there (same.trans ends)⟩
    · exact ⟨[], .last there none⟩
    · exact ⟨_, .up named higher⟩
  | @up slot upper above names way later =>
    rcases links slot with same | none | ⟨named, -⟩
    · obtain ⟨shorter, onwards⟩ := later (size ▸ way.lt_size)
      exact ⟨_, .up (same.trans names) onwards⟩
    · exact ⟨[], .last there none⟩
    · exact ⟨_, .up named higher⟩

namespace Relinked

variable (relinked : Relinked store after parent children)

include relinked

/-- The node has the new children. -/
theorem children_self (present : parent < store.size) : after.children parent = children := by
  obtain ⟨node, here⟩ := exists_node?_of_lt_size present
  rw [NodeStore.children, relinked.upper, here]
  rfl

/-- Other nodes have the children that they had. -/
theorem children_of_ne (other : slot ≠ parent) : after.children slot = store.children slot := by
  rw [NodeStore.children, NodeStore.children]
  by_cases listed : slot ∈ children
  · by_cases before : slot ∈ store.children parent
    · rw [relinked.others slot other (iff_of_true listed before)]
    · rw [relinked.joined slot listed before]
      cases store.node? slot <;> rfl
  · by_cases before : slot ∈ store.children parent
    · rw [relinked.left slot before listed]
      cases store.node? slot <;> rfl
    · rw [relinked.others slot other (iff_of_false listed before)]

/-- A new child names the node as its parent. -/
theorem parent?_joined (present : slot < store.size) (listed : slot ∈ children)
    (new : slot ∉ store.children parent) : after.parent? slot = some parent := by
  obtain ⟨node, here⟩ := exists_node?_of_lt_size present
  rw [parent?, relinked.joined slot listed new, here]
  rfl

/-- A child that is given up names no parent. -/
theorem parent?_left (before : slot ∈ store.children parent) (gone : slot ∉ children) :
    after.parent? slot = none := by
  rw [parent?, relinked.left slot before gone]
  cases store.node? slot <;> rfl

/-- A node that neither joins nor leaves the children names the parent that it named. -/
theorem parent?_others (same : slot ∈ children ↔ slot ∈ store.children parent) :
    after.parent? slot = store.parent? slot := by
  by_cases here : slot = parent
  · subst here
    rw [parent?, parent?, relinked.upper]
    cases store.node? slot <;> rfl
  · rw [parent?, parent?, relinked.others slot here same]

end Relinked

section Relink

variable (linked : store.WellLinked) (relinked : Relinked store after parent children)

include linked relinked

/-- A node that is not among the new children names what it named, unless this was their parent. -/
theorem Relinked.parent?_eq_some_iff (outside : child ∉ children) (owner : Slot) :
    after.parent? child = some owner ↔ owner ≠ parent ∧ store.parent? child = some owner := by
  have named := linked.mem_children_iff parent child
  by_cases before : child ∈ store.children parent
  · rw [relinked.parent?_left before outside, named.mp before]
    exact iff_of_false (by simp) fun both => both.1 (Option.some.inj both.2).symm
  · rw [relinked.parent?_others (iff_of_false outside before), iff_and_self]
    rintro above rfl
    exact before (named.mpr above)

variable (fit : ∀ child ∈ children, child ∉ store.children parent → store.IsLoose parent child)

include fit

/-- All new children name their parent. -/
theorem Relinked.parent?_of_mem (inside : child ∈ children) :
    after.parent? child = some parent := by
  by_cases before : child ∈ store.children parent
  · rw [relinked.parent?_others (iff_of_true inside before)]
    exact (linked.mem_children_iff parent child).mp before
  · exact relinked.parent?_joined (fit child inside before).present inside before

/-- The links agree in both directions. A node with another parent is no child of this one, so only
a loose one could have become its child. -/
theorem Relinked.mem_children_iff (present : parent < store.size) (owner child : Slot) :
    child ∈ after.children owner ↔ after.parent? child = some owner := by
  by_cases upper : owner = parent
  · subst upper
    rw [relinked.children_self present]
    refine ⟨relinked.parent?_of_mem linked fit, fun names => ?_⟩
    refine Decidable.byContradiction fun outside => ?_
    exact ((relinked.parent?_eq_some_iff linked outside owner).mp names).1 rfl
  · rw [relinked.children_of_ne upper, linked.mem_children_iff]
    by_cases inside : child ∈ children
    · rw [relinked.parent?_of_mem linked fit inside]
      refine iff_of_false (fun above => ?_) fun same => upper (Option.some.inj same).symm
      have other : child ∉ store.children parent := by
        rw [linked.mem_children_iff, above, Option.some_inj]
        exact upper
      exact absurd (above.symm.trans (fit child inside other).free) (by simp)
    · rw [relinked.parent?_eq_some_iff linked inside, and_iff_right upper]

/-- There is still a way up from every node. -/
theorem Relinked.grounded (present : parent < store.size) : after.Grounded := by
  refine linked.grounded.relink relinked.size present fun child => ?_
  by_cases inside : child ∈ children
  · by_cases before : child ∈ store.children parent
    · exact .inl (relinked.parent?_others (iff_of_true inside before))
    · have loose := fit child inside before
      exact .inr (.inr ⟨relinked.parent?_of_mem linked fit inside, loose.other, loose.apart⟩)
  · by_cases before : child ∈ store.children parent
    · exact .inr (.inl (relinked.parent?_left before inside))
    · exact .inl (relinked.parent?_others (iff_of_false inside before))

/-- A node keeps a store well linked when it gets other children, if each of these is one of its own
or can be put below it. -/
theorem WellLinked.relink (present : parent < store.size) (distinct : children.Nodup) :
    after.WellLinked := by
  constructor
  case once =>
    intro owner child
    have once : (after.children owner).Nodup := by
      by_cases upper : owner = parent
      · rw [upper, relinked.children_self present]
        exact distinct
      · rw [relinked.children_of_ne upper]
        exact linked.nodup_children owner
    rw [once.count]
    exact if_congr (relinked.mem_children_iff linked fit present owner child) rfl rfl
  case grounded => exact relinked.grounded linked fit present

end Relink

end Laminar.NodeStore
