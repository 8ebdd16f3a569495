import Laminar.Proofs.Grove

/-!
# Numbered groves

`number` counts the labels of a grove in their order, so a label has a greater number than the one
above it (`number_lt_of_mem_links`), and a function that counts the labels in this order says what
their numbers are (`number_eq_map`). A change of labels changes the places, the links and the
numbered grove label by label.
-/

namespace Laminar.Grove

variable {α β : Type}

/-- A change of labels changes those at a place, below it and above it. -/
def Place.map (f : α → β) (place : Place α) : Place β :=
  ⟨f place.label, place.below.map f, place.above.map f⟩

/-- The places of a grove with other labels are the old ones with other labels. -/
theorem placesBelow_map (f : α → β) (above : List α) (g : Grove α) :
    (g.map f).placesBelow (above.map f) = (g.placesBelow above).map (Place.map f) := by
  induction g generalizing above with
  | nil => rfl
  | node label below beside inner later =>
    rw [map, placesBelow, placesBelow, List.map_cons, List.map_append, ← inner, ← later]
    rfl

/-- The links of a grove with other labels. -/
theorem links_map (f : α → β) (g : Grove α) :
    (g.map f).links = g.links.map fun link => (f link.1, link.2.map f) := by
  have places : (g.map f).places = g.places.map (Place.map f) := placesBelow_map f [] g
  rw [links, links, places, List.map_map, List.map_map]
  refine List.map_congr_left fun place _ => ?_
  show (f place.label, (place.above.map f).head?) = (f place.label, place.above.head?.map f)
  rw [List.head?_map]

/-- Labels may be changed before they are numbered or afterwards. -/
theorem number_map (f : α → β) (next : Nat) (g : Grove α) :
    (g.map f).number next = (g.number next).map fun numbered => (numbered.1, f numbered.2) := by
  induction g generalizing next with
  | nil => rfl
  | node label below beside inner later =>
    rw [map, number, inner, later, size_map, number, map]

/-- A function that counts the labels in their order gives their numbers. -/
theorem number_eq_map {f : α → Nat} {next : Nat} {g : Grove α}
    (counts : g.labels.map f = List.range' next g.size) :
    g.number next = g.map fun label => (f label, label) := by
  induction g generalizing next with
  | nil => rfl
  | node label below beside inner later =>
    have total : 1 + below.size + beside.size = below.size + beside.size + 1 := by omega
    rw [labels, List.map_cons, List.map_append, size, total, List.range'_succ,
      ← List.range'_append_1, List.cons.injEq] at counts
    obtain ⟨here, others⟩ := counts
    obtain ⟨lower, right⟩ := List.append_inj others (by simp)
    rw [number, inner lower, later right, map, here]

/-- No number is less than the first one. -/
theorem le_of_mem_labels_number {next : Nat} {g : Grove α} :
    ∀ numbered ∈ (g.number next).labels, next ≤ numbered.1 := by
  intro numbered present
  have counted := List.mem_map_of_mem (f := Prod.fst) present
  rw [map_fst_labels_number, List.mem_range'_1] at counted
  exact counted.1

/-- A label has a greater number than the one just above it. -/
theorem families_number (next : Nat) (g : Grove α) :
    (g.number next).Families fun outer children => ∀ inner ∈ children, outer.1 < inner.1 := by
  induction g generalizing next with
  | nil => trivial
  | node label below beside inner later =>
    refine ⟨fun child root => ?_, inner (next + 1), later (next + 1 + below.size)⟩
    exact le_of_mem_labels_number child ((roots_sublist_labels _).subset root)

/-- A label has a greater number than the one just above it. -/
theorem number_lt_of_mem_links {next : Nat} {g : Grove α} {link : (Nat × α) × Option (Nat × α)}
    (linked : link ∈ (g.number next).links) {outer : Nat × α} (upper : outer ∈ link.2) :
    outer.1 < link.1.1 :=
  (forall_links_iff (fun outer inner => outer.1 < inner.1) _).mpr (families_number next g) link
    linked outer upper

/-- The links of a numbered grove come in the order of the numbers. -/
theorem map_number_links (next : Nat) (g : Grove α) :
    (g.number next).links.map (fun link => link.1.1) = List.range' next g.size := by
  rw [← map_fst_labels_number, ← map_fst_links, List.map_map]
  rfl

end Laminar.Grove
