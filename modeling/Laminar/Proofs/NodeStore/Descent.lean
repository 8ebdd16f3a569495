import Mathlib.Data.Nat.Basic
import Mathlib.Order.Basic
import Laminar.Proofs.NodeStore.Ascent

/-!
# Ways down

A way down follows the lists of children (`LeadsDown`). Below a root whose nodes all name the node
that lists them (`TreeBelow`), the way down to a node, read backwards, is the way up from it
(`TreeBelow.ascends`). So there is one way down to each node and no node comes twice on it, and the
depth of the store is the number of nodes on the longest way (`TreeBelow.depth_le_iff`).
-/

namespace Laminar.NodeStore

variable {α : Type} {store : NodeStore α}

/-- The slots on a way down from one slot to another, the last one left out. -/
inductive LeadsDown (store : NodeStore α) : Slot → List Slot → Slot → Prop
  /-- The way is at its end. -/
  | stay {slot : Slot} : LeadsDown store slot [] slot
  /-- The way goes on from a child. -/
  | down {slot child stop : Slot} {way : List Slot} (listed : child ∈ store.children slot)
      (lower : LeadsDown store child way stop) : LeadsDown store slot (slot :: way) stop

namespace LeadsDown

variable {start middle stop child : Slot} {way more : List Slot}

/-- A way down goes on with one from where it ends. -/
theorem trans (first : LeadsDown store start way middle)
    (second : LeadsDown store middle more stop) : LeadsDown store start (way ++ more) stop := by
  induction first with
  | stay => exact second
  | down listed _ later => exact .down listed (later second)

/-- A way goes on to the children of the node where it has ended. -/
theorem concat (leads : LeadsDown store start way stop) (listed : child ∈ store.children stop) :
    LeadsDown store start (way ++ [stop]) child :=
  leads.trans (.down listed .stay)

/-- A way begins in one slot only. -/
theorem start_unique {other : Slot} (leads : LeadsDown store start way stop)
    (again : LeadsDown store other way stop) : start = other := by
  cases leads with
  | stay =>
    cases again with
    | stay => rfl
  | down =>
    cases again with
    | down => rfl

end LeadsDown

/-- The nodes that are reached from a root form a tree in which every node names its parent: the
root has none, and each node lists its children once and is the parent that they name. -/
structure TreeBelow (store : NodeStore α) (root : Slot) : Prop where
  /-- The root holds a node. -/
  present : root < store.size
  /-- It names no parent. -/
  parentless : store.parent? root = none
  /-- No node lists a child twice. -/
  once : ∀ way slot, LeadsDown store root way slot → (store.children slot).Nodup
  /-- The children of a node name it as their parent. -/
  named : ∀ way slot, LeadsDown store root way slot →
    ∀ child ∈ store.children slot, store.parent? child = some slot

namespace TreeBelow

variable {root slot : Slot} {way : List Slot}

/-- It is enough to look at some slots among which all children are. -/
theorem of_closed (slots : List Slot) (present : root < store.size)
    (parentless : store.parent? root = none) (inside : root ∈ slots)
    (closed : ∀ slot ∈ slots, (store.children slot).Nodup ∧
      ∀ child ∈ store.children slot, child ∈ slots ∧ store.parent? child = some slot) :
    store.TreeBelow root := by
  have reached : ∀ {start way slot}, LeadsDown store start way slot → start ∈ slots →
      slot ∈ slots := by
    intro start way slot leads
    induction leads with
    | stay => exact id
    | down listed _ later => exact fun above => later ((closed _ above).2 _ listed).1
  constructor
  case present => exact present
  case parentless => exact parentless
  case once => exact fun way slot leads => (closed slot (reached leads inside)).1
  case named =>
    exact fun way slot leads child listed => ((closed slot (reached leads inside)).2 child listed).2

variable (tree : store.TreeBelow root)

include tree

/-- The way down to a node, read backwards, is the way up from it. The nodes on the way are reached
from the root, and the way up goes on from where it begins. -/
theorem ascends (leads : LeadsDown store root way slot) : Ascends store slot way.reverse := by
  have onwards : ∀ {start more stop}, LeadsDown store start more stop → ∀ {prior above},
      LeadsDown store root prior start → Ascends store start above →
      Ascends store stop (more.reverse ++ above) := by
    intro start more stop lower
    induction lower with
    | stay => exact fun _ ascends => ascends
    | @down start child stop more listed _ later =>
      intro prior above reached ascends
      have named := tree.named prior start reached child listed
      have rest := later (reached.concat listed) (.up named ascends)
      rwa [List.reverse_cons, List.append_assoc]
  have way_up := onwards leads .stay (.last tree.present tree.parentless)
  rwa [List.append_nil] at way_up

/-- There is one way down to a node. -/
theorem way_unique {other : List Slot} (leads : LeadsDown store root way slot)
    (again : LeadsDown store root other slot) : way = other :=
  List.reverse_inj.mp ((tree.ascends leads).unique (tree.ascends again))

/-- A way down ends at a node. -/
theorem lt_size (leads : LeadsDown store root way slot) : slot < store.size :=
  (tree.ascends leads).lt_size

/-- A way down visits no slot twice. -/
theorem nodup_way (leads : LeadsDown store root way slot) : (way ++ [slot]).Nodup := by
  have ascends := tree.ascends leads
  have visited : (slot :: way.reverse).Nodup := List.nodup_cons.mpr ⟨ascends.not_mem, ascends.nodup⟩
  rw [← List.nodup_reverse]
  simpa using visited

/-- A way down has fewer slots than there are nodes. -/
theorem length_lt_size (leads : LeadsDown store root way slot) : way.length < store.size := by
  have ascends := tree.ascends leads
  have present : ∀ other ∈ way ++ [slot], other < store.size := by
    rw [List.forall_mem_append, List.forall_mem_singleton]
    exact ⟨fun upper listed => ascends.forall_lt_size upper (List.mem_reverse.mpr listed),
      ascends.lt_size⟩
  have fewer := length_le_size_of_nodup (tree.nodup_way leads) present
  rwa [List.length_append] at fewer

end TreeBelow

/-! ## Depth -/

/-- The greatest of some numbers is no more than a bound if none of them is. -/
theorem foldl_max_le_iff (numbers : List Nat) (bound : Nat) :
    numbers.foldl max 0 ≤ bound ↔ ∀ number ∈ numbers, number ≤ bound := by
  cases greatest : numbers.max? with
  | none =>
    rw [List.max?_eq_none_iff.mp greatest]
    simp
  | some number =>
    rw [List.foldl_max, greatest, Option.getD_some, Nat.zero_max]
    exact List.max?_le_iff greatest

/-- The nodes on a longest way down from a slot are counted, if there is room for all ways. -/
theorem heightWithin_le_iff {levels : Nat} {slot : Slot}
    (room : ∀ way stop, LeadsDown store slot way stop → way.length < levels ∧ stop < store.size)
    (bound : Nat) :
    store.heightWithin levels slot ≤ bound ↔
      ∀ way stop, LeadsDown store slot way stop → way.length < bound := by
  induction levels generalizing slot bound with
  | zero => exact absurd (room [] slot .stay).1 (Nat.not_lt_zero _)
  | succ levels later =>
    obtain ⟨node, here⟩ : ∃ node, store.node? slot = some node :=
      ⟨_, Array.getElem?_eq_getElem (room [] slot .stay).2⟩
    have children := children_of_node? here
    have below : ∀ child ∈ store.children slot, ∀ bound,
        store.heightWithin levels child ≤ bound ↔
          ∀ way stop, LeadsDown store child way stop → way.length < bound := by
      intro child listed
      refine later fun way stop lower => ?_
      obtain ⟨fits, present⟩ := room (slot :: way) stop (.down listed lower)
      exact ⟨Nat.lt_of_succ_lt_succ fits, present⟩
    rw [heightWithin, here]
    show 1 + (node.children.map (store.heightWithin levels)).foldl max 0 ≤ bound ↔ _
    rw [← children]
    cases bound with
    | zero =>
      refine iff_of_false (by omega) fun short => ?_
      exact Nat.not_lt_zero _ (short [] slot .stay)
    | succ bound =>
      rw [Nat.add_comm, Nat.add_le_add_iff_right, foldl_max_le_iff, List.forall_mem_map]
      constructor
      · rintro lower way stop (_ | ⟨listed, leads⟩)
        · exact Nat.succ_pos bound
        · exact Nat.succ_lt_succ ((below _ listed bound).mp (lower _ listed) _ _ leads)
      · intro short child listed
        refine (below child listed bound).mpr fun way stop leads => ?_
        exact Nat.lt_of_succ_lt_succ (short (slot :: way) stop (.down listed leads))

namespace TreeBelow

variable {root : Slot} (tree : store.TreeBelow root)

include tree

/-- The depth of a store is that of the longest way down from its root. -/
theorem depth_le_iff (rooted : store.root = some root) (bound : Nat) :
    store.depth ≤ bound ↔ ∀ way stop, LeadsDown store root way stop → way.length < bound := by
  rw [depth, rooted]
  exact heightWithin_le_iff
    (fun way stop leads => ⟨tree.length_lt_size leads, tree.lt_size leads⟩) bound

/-- No way down is as long as the store is deep. -/
theorem length_lt_depth (rooted : store.root = some root) {way : List Slot} {slot : Slot}
    (leads : LeadsDown store root way slot) : way.length < store.depth :=
  (tree.depth_le_iff rooted store.depth).mp (Nat.le_refl _) way slot leads

/-- As many levels as there are on the longest way down are enough to find it. -/
theorem heightWithin_eq_depth (rooted : store.root = some root) {levels : Nat}
    (enough : store.depth ≤ levels) : store.heightWithin levels root = store.depth := by
  refine eq_of_forall_ge_iff fun bound => ?_
  rw [tree.depth_le_iff rooted bound]
  refine heightWithin_le_iff (fun way stop leads => ⟨?_, tree.lt_size leads⟩) bound
  exact Nat.lt_of_lt_of_le (tree.length_lt_depth rooted leads) enough

end TreeBelow

end Laminar.NodeStore
