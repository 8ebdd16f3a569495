import Laminar.NodeStore.Walk
import Laminar.Proofs.NodeStore.Trees

/-!
# Walks over trees

Where the links of a store make the trees of a grove, a walk meets the labels of the grove in their
order (`Unfolds.map_visits`). If it is only known which children a node has and not their order, a
walk still meets every node once (`visits_perm`). The bound on the number of visits is no bound
then, because there are no more nodes to be met than the store has (`le_wayBound`).
-/

namespace Laminar

namespace NodeStore

open scoped List

variable {α : Type} {store : NodeStore α}

/-- With no slot to visit a walk is at its end. -/
theorem visits_nil (store : NodeStore α) (steps : Nat) : store.visits steps [] = [] := by
  cases steps <;> rfl

/-- A walk with enough steps meets the labels of the trees, each before those below it. -/
theorem Unfolds.map_visits {waiting : List Slot} {g : Grove α} (unfolds : Unfolds store waiting g)
    {steps : Nat} (enough : g.size ≤ steps) :
    (store.visits steps waiting).map store.label? = g.labels.map some := by
  induction steps generalizing waiting g with
  | zero =>
    obtain rfl : g = .nil := by
      cases g with
      | nil => rfl
      | node => rw [Grove.size] at enough; omega
    rfl
  | succ steps later =>
    cases unfolds with
    | nil => rfl
    | @node slot rest children label parent below beside here named lower right =>
      have next : store.nextVisit? (slot :: rest) = some (slot, children ++ rest) := by
        rw [nextVisit?, here]
      have fewer : (below ++ beside).size ≤ steps := by
        rw [Grove.size] at enough
        rw [Grove.size_append]
        omega
      rw [visits, next]
      show store.label? slot :: (store.visits steps (children ++ rest)).map store.label? = _
      rw [later (lower.append right) fewer, Grove.labels_append, label?, here]
      rfl

/-- A walk with enough steps meets every slot of a grove once. -/
theorem Links.visits_perm {g : Grove Slot} (links : store.Links g) {waiting : List Slot}
    (same : waiting.Perm g.roots) {steps : Nat} (enough : g.size ≤ steps) :
    (store.visits steps waiting).Perm g.labels := by
  induction steps generalizing waiting g with
  | zero =>
    obtain rfl : g = .nil := by
      cases g with
      | nil => rfl
      | node => rw [Grove.size] at enough; omega
    exact List.Perm.refl _
  | succ steps later =>
    cases waiting with
    | nil =>
      obtain rfl : g = .nil := by
        cases g with
        | nil => rfl
        | node => exact absurd same.length_eq (by simp [Grove.roots])
      exact List.Perm.refl _
    | cons slot rest =>
      obtain ⟨left, below, right, rfl⟩ :=
        Grove.exists_tree_of_mem_roots (same.subset List.mem_cons_self)
      obtain ⟨leftLinks, ⟨node, here, children⟩, lower, rightLinks⟩ :=
        (Grove.families_append _ _ _).mp links
      have next : store.nextVisit? (slot :: rest) = some (slot, node.children ++ rest) := by
        rw [nextVisit?, here]
      have others : rest.Perm (left ++ right).roots := by
        rw [Grove.roots_append] at same ⊢
        exact (same.trans List.perm_middle).cons_inv
      have waits : (node.children ++ rest).Perm (below ++ (left ++ right)).roots := by
        rw [Grove.roots_append]
        exact children.append others
      have fewer : (below ++ (left ++ right)).size ≤ steps := by
        simp only [Grove.size_append, Grove.size] at enough ⊢
        omega
      have linked : store.Links (below ++ (left ++ right)) :=
        (Grove.families_append _ _ _).mpr
          ⟨lower, (Grove.families_append _ _ _).mpr ⟨leftLinks, rightLinks⟩⟩
      rw [visits, next]
      show (slot :: store.visits steps (node.children ++ rest)).Perm _
      calc slot :: store.visits steps (node.children ++ rest)
        _ ~ slot :: (below.labels ++ (left.labels ++ right.labels)) := by
          have met := later linked waits fewer
          rw [Grove.labels_append, Grove.labels_append] at met
          exact met.cons slot
        _ ~ slot :: (left.labels ++ (below.labels ++ right.labels)) := by
          refine List.Perm.cons slot ?_
          rw [← List.append_assoc, ← List.append_assoc]
          exact List.perm_append_comm.append_right _
        _ ~ left.labels ++ slot :: (below.labels ++ right.labels) := List.perm_middle.symm
        _ = (left ++ .node slot below right).labels := by rw [Grove.labels_append, Grove.labels]

/-! ## The bound -/

/-- A store in which a node has a child has links. -/
theorem linkCount_pos {slot child : Slot} (listed : child ∈ store.children slot) :
    0 < store.linkCount := by
  rw [children] at listed
  split at listed
  · next node found =>
    have present : node ∈ store.nodes.toList :=
      Array.mem_toList_iff.mpr (Array.mem_of_getElem? found)
    exact List.length_pos_of_mem (List.mem_flatMap.mpr ⟨node, present, listed⟩)
  · contradiction

/-- The bound leaves a step for every node that there is to be met. -/
theorem le_wayBound {count : Nat} (few : count ≤ store.size)
    (linked : 1 < count → 0 < store.linkCount) : count ≤ store.wayBound := by
  by_cases single : count ≤ 1
  · exact Nat.le_trans single (Nat.one_le_pow _ _ (Nat.succ_pos _))
  · have links := linked (Nat.lt_of_not_le single)
    calc count
      _ ≤ store.size := few
      _ ≤ 2 ^ store.size := Nat.le_of_lt Nat.lt_two_pow_self
      _ ≤ 2 ^ (store.size + 1) := Nat.pow_le_pow_right (by omega) (Nat.le_succ _)
      _ ≤ (store.linkCount + 1) ^ (store.size + 1) := Nat.pow_le_pow_left (by omega) _

/-- The bound leaves a step for every node of a tree. -/
theorem Unfolds.size_le_wayBound {root : Slot} {tree : Grove α}
    (unfolds : Unfolds store [root] tree) (few : tree.size ≤ store.size) :
    tree.size ≤ store.wayBound := by
  refine le_wayBound few fun many => ?_
  cases unfolds with
  | @node _ _ children label parent below beside here named lower right =>
    cases right
    cases lower with
    | nil => simp [Grove.size] at many
    | @node child rest =>
      have listed : child ∈ store.children root := by
        rw [children_of_node? here]
        exact List.mem_cons_self
      exact linkCount_pos listed

/-- The walk from the root meets the labels of its tree, if the store has no fewer nodes. -/
theorem Unfolds.map_preorder {root : Slot} {tree : Grove α} (rooted : store.root = some root)
    (unfolds : Unfolds store [root] tree) (few : tree.size ≤ store.size) :
    store.preorder.map store.label? = tree.labels.map some := by
  rw [preorder, rooted]
  exact unfolds.map_visits (unfolds.size_le_wayBound few)

/-- The walk from the root meets every slot of its tree once, if these are no more than there are
nodes. -/
theorem Links.preorder_perm {root : Slot} {below : Grove Slot} (rooted : store.root = some root)
    (links : store.Links (.tree root below)) (few : (Grove.tree root below).size ≤ store.size) :
    store.preorder ~ root :: below.labels := by
  rw [preorder, rooted, ← Grove.labels_tree]
  refine links.visits_perm (List.Perm.refl _) (le_wayBound few fun many => ?_)
  obtain ⟨⟨node, here, children⟩, -, -⟩ := links
  cases below with
  | nil => simp [Grove.tree, Grove.size] at many
  | node child lower beside =>
    have listed : child ∈ store.children root := by
      rw [children_of_node? here]
      exact children.mem_iff.mpr List.mem_cons_self
    exact linkCount_pos listed

end NodeStore

end Laminar
