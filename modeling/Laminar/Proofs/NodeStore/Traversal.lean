import Laminar.Proofs.NodeStore.Descent
import Laminar.Proofs.NodeStore.Walk

/-!
# Traversals of a tree

Three mechanisms go through the nodes below the root of a store: the walk with its stack of slots,
the recursion down the lists of children, and the way up along the parents. Where the nodes that are
reached form a tree they all describe this tree (`traversals_agree`). The walk meets the nodes in
the recursive order (`InPreorder`), because what it has met and what its stack still stands for make
up the whole order at every step.
-/

namespace Laminar.NodeStore

variable {α : Type} {store : NodeStore α} {slots listed : List Slot}

/-- The nodes in some slots and all nodes below them: each comes before the nodes below it, and
these come before the slots beside it. -/
inductive InPreorder (store : NodeStore α) : List Slot → List Slot → Prop
  /-- No slot, no node. -/
  | nil : InPreorder store [] []
  /-- A first slot, what is below its node, and the other slots. -/
  | node {slot : Slot} {rest below beside : List Slot} {node : Node α}
      (here : store.node? slot = some node) (lower : InPreorder store node.children below)
      (right : InPreorder store rest beside) :
      InPreorder store (slot :: rest) (slot :: (below ++ beside))

namespace InPreorder

/-- Slots that have an order each have one together. -/
theorem exists_of_forall (each : ∀ slot ∈ slots, ∃ listed, InPreorder store [slot] listed) :
    ∃ listed, InPreorder store slots listed := by
  induction slots with
  | nil => exact ⟨[], .nil⟩
  | cons slot rest later =>
    obtain ⟨⟨first, ordered⟩, others⟩ := List.forall_mem_cons.mp each
    obtain ⟨beside, right⟩ := later others
    cases ordered with
    | node here lower => exact ⟨_, .node here lower right⟩

/-- The order has the nodes to which ways lead down from the slots. -/
theorem mem_iff (ordered : InPreorder store slots listed) (slot : Slot) :
    slot ∈ listed ↔ ∃ start ∈ slots, ∃ way, LeadsDown store start way slot := by
  induction ordered with
  | nil => simp
  | @node first rest below beside node here _ _ inner later =>
    have children := children_of_node? here
    have fromFirst : (∃ way, LeadsDown store first way slot) ↔ slot = first ∨ slot ∈ below := by
      rw [inner, ← children]
      constructor
      · rintro ⟨_, _ | ⟨listed, lower⟩⟩
        · exact .inl rfl
        · exact .inr ⟨_, listed, _, lower⟩
      · rintro (rfl | ⟨child, listed, way, lower⟩)
        · exact ⟨[], .stay⟩
        · exact ⟨_, .down listed lower⟩
    rw [List.mem_cons, List.mem_append, ← or_assoc, ← fromFirst, later, List.exists_mem_cons_iff]

/-- A walk meets the nodes in their order and goes on with the slots that wait behind them. -/
theorem visits_append (ordered : InPreorder store slots listed) (steps : Nat)
    (waiting : List Slot) :
    store.visits (listed.length + steps) (slots ++ waiting) =
      listed ++ store.visits steps waiting := by
  induction ordered generalizing steps waiting with
  | nil => rw [List.length_nil, Nat.zero_add]; rfl
  | @node slot rest below beside node here _ _ inner later =>
    have total : (slot :: (below ++ beside)).length + steps =
        below.length + (beside.length + steps) + 1 := by
      rw [List.length_cons, List.length_append]
      omega
    have next : store.nextVisit? (slot :: (rest ++ waiting)) =
        some (slot, node.children ++ (rest ++ waiting)) := by
      rw [nextVisit?, here]
    rw [total, List.cons_append, visits, next]
    show slot :: store.visits _ _ = _
    rw [inner, later, List.cons_append, List.append_assoc]

/-- A walk ends when it has met all nodes. -/
theorem visits_eq (ordered : InPreorder store slots listed) {steps : Nat}
    (enough : listed.length ≤ steps) : store.visits steps slots = listed := by
  obtain ⟨more, rfl⟩ := Nat.exists_eq_add_of_le enough
  have walked := ordered.visits_append more []
  rwa [List.append_nil, visits_nil, List.append_nil] at walked

end InPreorder

namespace TreeBelow

variable {root : Slot} (tree : store.TreeBelow root)

include tree

/-- The nodes below a root have an order. A way down can go on no longer than there are nodes left
that it has not visited. -/
theorem exists_inPreorder : ∃ listed, InPreorder store [root] listed := by
  have within : ∀ left way slot, LeadsDown store root way slot → store.size ≤ way.length + left →
      ∃ listed, InPreorder store [slot] listed := by
    intro left
    induction left with
    | zero =>
      intro way slot leads full
      exact absurd (tree.length_lt_size leads) (Nat.not_lt.mpr full)
    | succ left later =>
      intro way slot leads room
      obtain ⟨node, here⟩ : ∃ node, store.node? slot = some node :=
        ⟨_, Array.getElem?_eq_getElem (tree.lt_size leads)⟩
      have each : ∀ child ∈ node.children, ∃ listed, InPreorder store [child] listed := by
        intro child listed
        rw [← children_of_node? here] at listed
        refine later (way ++ [slot]) child (leads.concat listed) ?_
        rw [List.length_append, List.length_singleton]
        omega
      obtain ⟨below, lower⟩ := InPreorder.exists_of_forall each
      exact ⟨_, .node here lower .nil⟩
  exact within store.size [] root .stay (Nat.le_add_left _ _)

/-- No node comes twice below different slots that are reached by one way. Two ways to a node agree,
so they would go on from the same slot. -/
theorem nodup_inPreorder (ordered : InPreorder store slots listed) {way : List Slot}
    (reached : ∀ slot ∈ slots, LeadsDown store root way slot) (distinct : slots.Nodup) :
    listed.Nodup := by
  induction ordered generalizing way with
  | nil => exact List.nodup_nil
  | @node slot rest below beside node here lower right inner later =>
    obtain ⟨first, others⟩ := List.forall_mem_cons.mp reached
    obtain ⟨apart, restDistinct⟩ := List.nodup_cons.mp distinct
    have children := children_of_node? here
    have once := tree.once way slot first
    rw [children] at once
    have whole : InPreorder store [slot] (slot :: (below ++ [])) := .node here lower .nil
    rw [List.append_nil] at whole
    have between : ∀ inside ∈ slot :: below, inside ∉ beside := by
      intro inside under across
      obtain ⟨_, start, onwards, leads⟩ := (whole.mem_iff inside).mp under
      obtain rfl := List.mem_singleton.mp start
      obtain ⟨other, listedOther, elsewhere, again⟩ := (right.mem_iff inside).mp across
      have same := tree.way_unique (first.trans leads) ((others other listedOther).trans again)
      obtain rfl := List.append_cancel_left same
      exact apart (leads.start_unique again ▸ listedOther)
    have strictly : slot ∉ below := by
      intro inside
      obtain ⟨child, listedChild, onwards, leads⟩ := (lower.mem_iff slot).mp inside
      rw [← children] at listedChild
      have again := tree.way_unique first (first.trans (.down listedChild leads))
      simp at again
    have belowDistinct := inner (fun child listedChild =>
      first.concat (children ▸ listedChild)) once
    have besideDistinct := later others restDistinct
    rw [← List.cons_append, List.nodup_append]
    refine ⟨List.nodup_cons.mpr ⟨strictly, belowDistinct⟩, besideDistinct, ?_⟩
    rintro inside under _ across rfl
    exact between inside under across

/-- The walk from the root meets the nodes below it in their order. -/
theorem preorder_eq (rooted : store.root = some root)
    (ordered : InPreorder store [root] listed) : store.preorder = listed := by
  have distinct : listed.Nodup :=
    tree.nodup_inPreorder ordered (List.forall_mem_singleton.mpr .stay) (List.nodup_singleton root)
  have present : ∀ slot ∈ listed, slot < store.size := by
    intro slot met
    obtain ⟨start, single, way, leads⟩ := (ordered.mem_iff slot).mp met
    obtain rfl := List.mem_singleton.mp single
    exact tree.lt_size leads
  have enough : listed.length ≤ store.wayBound := by
    refine le_wayBound (length_le_size_of_nodup distinct present) fun many => ?_
    cases ordered with
    | @node _ _ below _ node here lower right =>
      have children := children_of_node? here
      cases right
      cases first : node.children with
      | nil =>
        rw [first] at lower
        cases lower
        simp at many
      | cons child others =>
        have listed : child ∈ store.children root := by
          rw [children, first]
          exact List.mem_cons_self
        exact linkCount_pos listed
  rw [preorder, rooted]
  exact ordered.visits_eq enough

/-- The walk meets the nodes to which ways lead down from the root. -/
theorem mem_preorder_iff (rooted : store.root = some root) (slot : Slot) :
    slot ∈ store.preorder ↔ ∃ way, LeadsDown store root way slot := by
  obtain ⟨listed, ordered⟩ := tree.exists_inPreorder
  rw [tree.preorder_eq rooted ordered, ordered.mem_iff]
  simp

/-- The depth is one more than the greatest number of nodes above a node that the walk meets. -/
theorem depth_eq (rooted : store.root = some root) :
    store.depth = (store.preorder.map fun slot =>
      1 + ((store.ancestors? slot).getD []).length).foldl max 0 := by
  have above : ∀ way slot, LeadsDown store root way slot →
      1 + ((store.ancestors? slot).getD []).length = way.length + 1 := by
    intro way slot leads
    rw [(tree.ascends leads).ancestors?_eq, Option.getD_some, List.length_reverse, Nat.add_comm]
  refine eq_of_forall_ge_iff fun bound => ?_
  rw [tree.depth_le_iff rooted, foldl_max_le_iff, List.forall_mem_map]
  constructor
  · intro short slot met
    obtain ⟨way, leads⟩ := (tree.mem_preorder_iff rooted slot).mp met
    rw [above way slot leads]
    exact short way slot leads
  · intro few way slot leads
    have bounded := few slot ((tree.mem_preorder_iff rooted slot).mpr ⟨way, leads⟩)
    rwa [above way slot leads] at bounded

end TreeBelow

/-- A leaf is a node without children that the walk meets. -/
theorem mem_leaves_iff (slot : Slot) :
    slot ∈ store.leaves ↔ slot ∈ store.preorder ∧ store.children slot = [] := by
  rw [leaves, List.mem_filter, isLeaf, List.isEmpty_iff]

/-- Where the nodes that are reached from the root form a tree in which each names its parent, all
traversals describe this tree. The walk with a stack meets the nodes in the recursive order, each of
them once, and then ends. The leaves are those that it meets without children. From every node that
it meets, the way up is the way down read backwards. The depth is one more than the greatest number
of ancestors, or zero if nothing is met. A bound on the steps or levels that leaves room for the
tree changes nothing. -/
theorem traversals_agree (tree : ∀ root ∈ store.root, store.TreeBelow root) :
    InPreorder store store.root.toList store.preorder ∧
    (∀ steps, store.preorder.length ≤ steps →
      store.visits steps store.root.toList = store.preorder) ∧
    store.preorder.Nodup ∧
    (∀ slot, slot ∈ store.preorder ↔
      ∃ root ∈ store.root, ∃ way, LeadsDown store root way slot) ∧
    store.leaves.Sublist store.preorder ∧
    (∀ slot, slot ∈ store.leaves ↔ slot ∈ store.preorder ∧ store.children slot = []) ∧
    (∀ root ∈ store.root, ∀ way slot, LeadsDown store root way slot →
      store.ancestors? slot = some way.reverse ∧
      ∀ levels, way.length < levels → store.ancestorsWithin? levels slot = some way.reverse) ∧
    store.depth = (store.preorder.map fun slot =>
      1 + ((store.ancestors? slot).getD []).length).foldl max 0 ∧
    ∀ root ∈ store.root, ∀ levels, store.depth ≤ levels →
      store.heightWithin levels root = store.depth := by
  cases rooted : store.root with
  | none =>
    have nothing : store.preorder = [] := by rw [preorder, rooted]; exact visits_nil ..
    have flat : store.depth = 0 := by rw [depth, rooted]
    simp [nothing, flat, InPreorder.nil, visits_nil, leaves]
  | some root =>
    have tree := tree root rooted
    obtain ⟨listed, ordered⟩ := tree.exists_inPreorder
    obtain rfl := tree.preorder_eq rooted ordered
    have distinct : store.preorder.Nodup :=
      tree.nodup_inPreorder ordered (List.forall_mem_singleton.mpr .stay)
        (List.nodup_singleton root)
    refine ⟨ordered, fun steps enough => ordered.visits_eq enough, distinct, fun slot => ?_,
      List.filter_sublist, mem_leaves_iff, ?_, tree.depth_eq rooted, ?_⟩
    · rw [tree.mem_preorder_iff rooted slot]
      simp
    · rintro _ ⟨⟩ way slot leads
      have ascends := tree.ascends leads
      refine ⟨ascends.ancestors?_eq, fun levels enough => ascends.ancestorsWithin?_eq ?_⟩
      rwa [List.length_reverse]
    · rintro _ ⟨⟩ levels enough
      exact tree.heightWithin_eq_depth rooted enough

/-- A root with two children and a grandchild. Two more nodes are not reached: one lists a node that
does not name it, and one lists itself. -/
def stray : NodeStore Nat :=
  ⟨#[⟨10, none, [1, 2]⟩, ⟨11, some 0, [3]⟩, ⟨12, some 0, []⟩, ⟨13, some 1, []⟩,
    ⟨14, none, [2]⟩, ⟨15, some 5, [5]⟩], some 0⟩

/-- What is not reached from the root has no part in any traversal. -/
theorem traversals_agree_stray :
    (∀ root ∈ stray.root, stray.TreeBelow root) ∧
      InPreorder stray [0] [0, 1, 3, 2] ∧ stray.preorder = [0, 1, 3, 2] ∧
      (∀ slot, slot ∈ [0, 1, 3, 2] ↔ ∃ way, LeadsDown stray 0 way slot) ∧
      (∀ slot, slot ∈ [3, 2] ↔ slot ∈ [0, 1, 3, 2] ∧ stray.children slot = []) ∧
      stray.ancestors? 3 = some [0, 1].reverse ∧
      stray.depth = ([1, 2, 3, 2] : List Nat).foldl max 0 := by
  have tree : stray.TreeBelow 0 :=
    .of_closed [0, 1, 2, 3] (by decide) rfl (by decide) (by decide)
  have trees : ∀ root ∈ stray.root, stray.TreeBelow root := by
    rintro _ ⟨⟩
    exact tree
  have met : stray.preorder = [0, 1, 3, 2] := rfl
  have lowest : stray.leaves = [3, 2] := rfl
  obtain ⟨ordered, -, -, reached, -, leaf, up, depth, -⟩ := traversals_agree trees
  rw [met] at ordered reached depth
  rw [met, lowest] at leaf
  have first : 1 ∈ stray.children 0 := by decide
  have second : 3 ∈ stray.children 1 := by decide
  have leads : LeadsDown stray 0 [0, 1] 3 := .down first (.down second .stay)
  have root : stray.root = some 0 := rfl
  refine ⟨trees, ordered, met, fun slot => ?_, leaf, (up 0 rfl [0, 1] 3 leads).1, depth⟩
  rw [reached slot, root]
  simp

end Laminar.NodeStore
