import Mathlib.Data.List.Nodup
import Laminar.Proofs.Grove

/-!
# The links of a grove

The links to a label come from the labels just below its places (`some_mem_links_iff`), so where no
label comes twice the children of a label are what is linked to it. A label above a whole grove is
linked to the labels at the top (`links_tree`).
-/

namespace Laminar.Grove

variable {α β : Type}

/-- A label at the top has a tree. -/
theorem exists_tree_of_mem_roots {g : Grove α} {root : α} (top : root ∈ g.roots) :
    ∃ left below right, g = left ++ node root below right := by
  induction g with
  | nil => contradiction
  | node label below beside _ later =>
    rcases List.mem_cons.mp top with rfl | top
    · exact ⟨nil, below, beside, rfl⟩
    · obtain ⟨left, inner, right, rfl⟩ := later top
      exact ⟨node label below left, inner, right, rfl⟩

/-- Other labels come at the top in the order of the old ones. -/
@[simp]
theorem roots_map (f : α → β) (g : Grove α) : (g.map f).roots = g.roots.map f := by
  induction g with
  | nil => rfl
  | node label below beside _ later => rw [map, roots, roots, later, List.map_cons]

/-- The families of a grove with other labels. -/
theorem families_map (f : α → β) (family : β → List β → Prop) (g : Grove α) :
    (g.map f).Families family ↔
      g.Families fun label children => family (f label) (children.map f) := by
  induction g with
  | nil => exact Iff.rfl
  | node label below beside inner later => rw [map, Families, Families, inner, later, roots_map]

/-- Where no label comes twice, none does in a family. -/
theorem families_nodup {g : Grove α} (distinct : g.labels.Nodup) :
    g.Families fun label children => (label :: children).Nodup := by
  induction g with
  | nil => trivial
  | node label below beside inner later =>
    have children : (label :: below.roots).Sublist (label :: (below.labels ++ beside.labels)) :=
      ((roots_sublist_labels below).trans (List.sublist_append_left _ _)).cons_cons label
    obtain ⟨lower, right, -⟩ := List.nodup_append.mp (List.nodup_cons.mp distinct).2
    exact ⟨distinct.sublist children, inner lower, later right⟩

/-- Where no label comes twice, a label has one place. -/
theorem eq_of_mem_places {g : Grove α} (distinct : g.labels.Nodup) {a b : Place α}
    (left : a ∈ g.places) (right : b ∈ g.places) (same : a.label = b.label) : a = b := by
  rw [← map_label_places] at distinct
  exact List.inj_on_of_nodup_map distinct left right same

/-- What is linked to a label is just below one of its places. -/
theorem some_mem_links_iff (g : Grove α) (child label : α) :
    (child, some label) ∈ g.links ↔
      ∃ place ∈ g.places, place.label = label ∧ child ∈ place.children := by
  constructor
  · intro linked
    have below := (forall_links_iff
      (fun outer inner => ∃ place ∈ g.places, place.label = outer ∧ inner ∈ place.children) g).mpr
      ((families_iff _ g).mpr fun place placed inner lower => ⟨place, placed, rfl, lower⟩)
    exact below _ linked label rfl
  · rintro ⟨place, placed, rfl, lower⟩
    have linked := (forall_links_iff (fun outer inner => (inner, some outer) ∈ g.links) g).mp
    refine (families_iff _ g).mp (linked ?_) place placed child lower
    rintro ⟨inner, above⟩ present outer rfl
    exact present

/-- What is just below a place are labels of the grove. -/
theorem mem_labels_of_mem_children {g : Grove α} {place : Place α} (placed : place ∈ g.places) :
    ∀ child ∈ place.children, child ∈ g.labels := by
  intro child lower
  rw [← map_fst_links]
  have linked := (some_mem_links_iff g child place.label).mpr ⟨place, placed, rfl, lower⟩
  exact List.mem_map_of_mem linked

/-- What lies above a grove lies above what is above each place. -/
theorem placesBelow_append (above more : List α) (g : Grove α) :
    g.placesBelow (above ++ more) =
      (g.placesBelow above).map fun place => { place with above := place.above ++ more } := by
  induction g generalizing above with
  | nil => rfl
  | node label below beside inner later =>
    have lower := inner (label :: above)
    rw [List.cons_append] at lower
    rw [placesBelow, placesBelow, later, lower, List.map_cons, List.map_append]

/-- The places of a first tree and of the trees beside it. Its root is above the places below. -/
theorem places_node (label : α) (below beside : Grove α) :
    (node label below beside).places =
      ⟨label, below, []⟩ ::
        ((below.places.map fun place => { place with above := place.above ++ [label] }) ++
          beside.places) := by
  rw [places, placesBelow, ← List.nil_append [label], placesBelow_append]
  rfl

/-- Below a label, what was at the top is linked to it. -/
theorem links_node (label : α) (below beside : Grove α) :
    (node label below beside).links =
      (label, none) :: (below.links.map fun link => (link.1, some (link.2.getD label))) ++
        beside.links := by
  rw [links, places_node, List.map_cons, List.map_append, List.map_map, links, List.map_map]
  refine congrArg (_ :: · ++ _) (List.map_congr_left fun place _ => ?_)
  show (place.label, (place.above ++ [label]).head?) =
    (place.label, some (place.above.head?.getD label))
  cases place.above <;> rfl

/-- In one tree, the labels that were at the top are linked to its root. -/
theorem links_tree (root : α) (below : Grove α) :
    (tree root below).links =
      (root, none) :: below.links.map fun link => (link.1, some (link.2.getD root)) := by
  rw [tree, links_node]
  exact List.append_nil _

end Laminar.Grove
