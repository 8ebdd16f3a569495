import Laminar.Proofs.Grove

/-!
# Pruned groves

Pruning takes labels out with all that is below them. Where the labels that it refuses have no
children, it takes out these labels and no others, and every place that is left keeps what lies
above it (`placesBelow_prune`).
-/

namespace Laminar.Grove

variable {α β : Type} {keep : α → Bool}

/-- The place in the pruned grove. -/
def Place.prune (keep : α → Bool) (place : Place α) : Place α :=
  { place with below := place.below.prune keep }

/-- What is kept everywhere is not pruned. -/
theorem prune_eq_self {g : Grove α} (kept : ∀ label ∈ g.labels, keep label = true) :
    g.prune keep = g := by
  induction g with
  | nil => rfl
  | node label below beside inner later =>
    simp only [labels, List.forall_mem_cons, List.forall_mem_append] at kept
    obtain ⟨here, lower, right⟩ := kept
    rw [prune, if_pos here, inner lower, later right]

/-- If what is refused has no children, the places that are left are those of the labels that are
kept. -/
theorem placesBelow_prune {g : Grove α}
    (leaves : g.Families fun label children => keep label = false → children = [])
    (above : List α) :
    (g.prune keep).placesBelow above =
      ((g.placesBelow above).filter fun place => keep place.label).map (Place.prune keep) := by
  induction g generalizing above with
  | nil => rfl
  | node label below beside inner later =>
    obtain ⟨childless, lower, right⟩ := leaves
    by_cases kept : keep label = true
    · rw [prune, if_pos kept]
      simp only [placesBelow, inner lower, later right, List.filter_cons_of_pos, kept,
        List.filter_append, List.map_cons, List.map_append]
      rfl
    · have refused : keep label = false := Bool.eq_false_iff.mpr kept
      have bare : below = nil := by
        rw [← isEmpty_iff_eq_nil, isEmpty_iff_roots]
        exact childless refused
      subst bare
      rw [prune, if_neg kept]
      simp only [placesBelow, later right, List.filter_cons, refused, Bool.false_eq_true,
        ↓reduceIte, List.nil_append]

/-- If what is refused has no children, the places that are left are those of the labels that are
kept. -/
theorem places_prune {g : Grove α}
    (leaves : g.Families fun label children => keep label = false → children = []) :
    (g.prune keep).places =
      (g.places.filter fun place => keep place.label).map (Place.prune keep) :=
  placesBelow_prune leaves []

/-- If what is refused has no children, the links that are left are those of the labels that are
kept. -/
theorem links_prune {g : Grove α}
    (leaves : g.Families fun label children => keep label = false → children = []) :
    (g.prune keep).links = g.links.filter fun link => keep link.1 := by
  rw [links, places_prune leaves, links, List.filter_map, List.map_map]
  rfl

end Laminar.Grove
