import Mathlib.Data.List.Forall2
import Laminar.Proofs.NodeStore.Ascent
import Laminar.Proofs.NodeStore.Walk

/-!
# Places of the nodes of trees

Where the links of a store make the trees of a grove, a walk meets the nodes in the order of the
places of the grove, and from each node the way up leads over the labels above its place
(`Unfolds.preorder_places`). The texts of the nodes, taken down the lists of children, make the
grove of the texts (`Unfolds.textTree_eq`).
-/

namespace Laminar.NodeStore

variable {α : Type} {store : NodeStore α}

/-- The way up from the node in a slot leads over nodes with some labels. -/
def LiesBelow (store : NodeStore α) (slot : Slot) (above : List α) : Prop :=
  ∃ outer, store.Ascends slot outer ∧ outer.map store.label? = above.map some

/-- The node in a slot is that of a place: it has the label of the place and lies below the labels
above the place. -/
structure StandsAt (store : NodeStore α) (slot : Slot) (place : Grove.Place α) : Prop where
  /-- The node has the label. -/
  label : store.label? slot = some place.label
  /-- The way up leads over the labels above. -/
  above : store.LiesBelow slot place.above

/-- A node lies below its parent and what that lies below. -/
theorem LiesBelow.of_parent? {slot child : Slot} {label : α} {above : List α}
    (lies : store.LiesBelow slot above) (here : store.label? slot = some label)
    (named : store.parent? child = some slot) : store.LiesBelow child (label :: above) := by
  obtain ⟨outer, ascends, labels⟩ := lies
  exact ⟨slot :: outer, .up named ascends, by rw [List.map_cons, List.map_cons, here, labels]⟩

namespace Unfolds

/-- A walk meets the nodes of the places of some trees and goes on with the slots that wait behind
them. -/
theorem visits_places {slots : List Slot} {g : Grove α} (unfolds : Unfolds store slots g)
    {above : List α} (lie : ∀ slot ∈ slots, store.LiesBelow slot above) :
    ∃ met, List.Forall₂ store.StandsAt met (g.placesBelow above) ∧
      ∀ steps waiting,
        store.visits (g.size + steps) (slots ++ waiting) = met ++ store.visits steps waiting := by
  induction unfolds generalizing above with
  | nil => exact ⟨[], .nil, fun steps waiting => by rw [Grove.size, Nat.zero_add]; rfl⟩
  | @node slot rest children label parent below beside here named lower right inner later =>
    obtain ⟨first, others⟩ := List.forall_mem_cons.mp lie
    have labelled : store.label? slot = some label := by
      rw [label?, here]
      rfl
    obtain ⟨metBelow, stoodBelow, walkedBelow⟩ :=
      inner fun child listed => first.of_parent? labelled (named child listed)
    obtain ⟨metBeside, stoodBeside, walkedBeside⟩ := later others
    refine ⟨slot :: (metBelow ++ metBeside),
      .cons ⟨labelled, first⟩ (List.rel_append stoodBelow stoodBeside), fun steps waiting => ?_⟩
    have total : (Grove.node label below beside).size + steps =
        below.size + (beside.size + steps) + 1 := by
      rw [Grove.size]
      omega
    have next : store.nextVisit? (slot :: (rest ++ waiting)) =
        some (slot, children ++ (rest ++ waiting)) := by
      rw [nextVisit?, here]
    rw [total, List.cons_append, visits, next]
    show slot :: store.visits _ _ = _
    rw [walkedBelow, walkedBeside, List.cons_append, List.append_assoc]

/-- The walk from the root meets the nodes of the places of its tree. -/
theorem preorder_places {root : Slot} {tree : Grove α} (rooted : store.root = some root)
    (parentless : store.parent? root = none) (unfolds : Unfolds store [root] tree)
    (few : tree.size ≤ store.size) : List.Forall₂ store.StandsAt store.preorder tree.places := by
  have present : root < store.size := by
    cases unfolds with
    | node here => exact lt_size_of_node? here
  have lies : ∀ slot ∈ [root], store.LiesBelow slot [] :=
    List.forall_mem_singleton.mpr ⟨[], .last present parentless, rfl⟩
  obtain ⟨met, stood, walked⟩ := unfolds.visits_places lies
  obtain ⟨more, bound⟩ := Nat.exists_eq_add_of_le (unfolds.size_le_wayBound few)
  have all := walked more []
  rw [List.append_nil, visits_nil, List.append_nil, ← bound] at all
  rw [preorder, rooted]
  exact all ▸ stood

/-- The texts of the nodes, with enough levels, make the grove of the texts. -/
theorem textTree_eq (text : α → String) {slots : List Slot} {g : Grove α}
    (unfolds : Unfolds store slots g) {levels : Nat} (enough : g.height ≤ levels) :
    (slots.map (store.textTree text levels)).foldr (· ++ ·) .nil = g.map text := by
  induction unfolds generalizing levels with
  | nil => rfl
  | @node slot rest children label parent below beside here named lower right inner later =>
    rw [Grove.height] at enough
    obtain ⟨fewer, rfl⟩ : ∃ fewer, levels = fewer + 1 := ⟨levels - 1, by omega⟩
    have first : store.textTree text (fewer + 1) slot = .tree (text label) (below.map text) := by
      rw [textTree, here]
      exact congrArg (Grove.tree (text label)) (inner (by omega))
    rw [List.map_cons, List.foldr_cons, first, later (by omega)]
    rfl

end Unfolds

end Laminar.NodeStore
