import Mathlib.Data.List.Sort
import Laminar.Proofs.Grove.Links

/-!
# Groves with ordered siblings

A label is at the top if nothing is above its place (`mem_roots_iff`), and it is below another one
if that one is above its place (`mem_above_node_iff`). So the labels of a grove and what is above
each of them say which labels are siblings. If siblings are ordered by a strict relation, this says
what the grove is (`Ordered.eq_of_above`).
-/

namespace Laminar.Grove

variable {α : Type} {before : α → α → Prop}

/-- The labels at the top, and those just below each label, come in an order. -/
structure Ordered (before : α → α → Prop) (g : Grove α) : Prop where
  /-- The labels at the top are in order. -/
  roots : g.roots.Pairwise before
  /-- The labels just below another one are in order. -/
  families : g.Families fun _ children => children.Pairwise before

/-- No trees are in order. -/
theorem Ordered.nil : (nil : Grove α).Ordered before :=
  ⟨List.Pairwise.nil, trivial⟩

/-- A last tree is in order if its label comes after the others at the top. -/
theorem Ordered.append_tree {left below : Grove α} {label : α} (ordered : left.Ordered before)
    (inner : below.Ordered before) (last : ∀ root ∈ left.roots, before root label) :
    (left ++ tree label below).Ordered before := by
  constructor
  · rw [roots_append, roots_tree]
    refine List.pairwise_append.mpr ⟨ordered.roots, List.pairwise_singleton _ _, ?_⟩
    intro root top final here
    rw [List.mem_singleton.mp here]
    exact last root top
  · rw [families_append]
    exact ⟨ordered.families, inner.roots, inner.families, trivial⟩

/-- A label is at the top if it has a place with nothing above. -/
theorem mem_roots_iff (g : Grove α) (label : α) :
    label ∈ g.roots ↔ ∃ place ∈ g.places, place.label = label ∧ place.above = [] := by
  induction g with
  | nil => simp [roots, places, placesBelow]
  | node top below beside _ later =>
    rw [roots, List.mem_cons, later, places_node]
    constructor
    · rintro (rfl | ⟨place, placed, rfl, alone⟩)
      · exact ⟨_, List.mem_cons_self, rfl, rfl⟩
      · exact ⟨place, by simp [placed], rfl, alone⟩
    · rintro ⟨place, placed, rfl, alone⟩
      simp only [List.mem_cons, List.mem_append, List.mem_map] at placed
      rcases placed with rfl | ⟨inner, -, rfl⟩ | placed
      · exact .inl rfl
      · simp at alone
      · exact .inr ⟨place, placed, rfl, alone⟩

/-- A tree and the trees beside it have distinct labels only if its top, what is below it and what
is beside it share none. -/
theorem nodup_node {label : α} {below beside : Grove α}
    (distinct : (node label below beside).labels.Nodup) :
    label ∉ below.labels ++ beside.labels ∧ below.labels.Nodup ∧ beside.labels.Nodup ∧
      ∀ inner ∈ below.labels, inner ∉ beside.labels := by
  obtain ⟨apart, others⟩ := List.nodup_cons.mp distinct
  obtain ⟨lower, right, across⟩ := List.nodup_append.mp others
  exact ⟨apart, lower, right, fun inner left beyond => across inner left inner beyond rfl⟩

/-- In a grove without repeated labels, the root of the first tree is above the labels below it and
no others. -/
theorem mem_above_node_iff {label : α} {below beside : Grove α}
    (distinct : (node label below beside).labels.Nodup) :
    ∀ place ∈ (node label below beside).places,
      label ∈ place.above ↔ place.label ∈ below.labels := by
  obtain ⟨apart, -, -, across⟩ := nodup_node distinct
  simp only [places_node, List.forall_mem_cons, List.forall_mem_append, List.forall_mem_map]
  refine ⟨?_, fun place placed => ?_, fun place placed => ?_⟩
  · exact iff_of_false List.not_mem_nil fun listed => apart (List.mem_append_left _ listed)
  · exact iff_of_true (by simp) (label_mem_of_mem_placesBelow placed)
  · refine iff_of_false (fun higher => ?_) fun listed => ?_
    · exact apart (List.mem_append_right _ (mem_labels_of_mem_above placed label higher))
    · exact across _ listed (label_mem_of_mem_placesBelow placed)

/-- Two groves whose first trees have the same labels have the same labels beside these. -/
theorem beside_subset {label : α} {below beside lower right : Grove α}
    (distinct : (node label below beside).labels.Nodup)
    (members : ∀ inner ∈ (node label below beside).labels, inner ∈ (node label lower right).labels)
    (others : ∀ inner ∈ lower.labels, inner ∈ below.labels) :
    ∀ inner ∈ beside.labels, inner ∈ right.labels := by
  intro inner present
  obtain ⟨apart, -, -, across⟩ := nodup_node distinct
  have listed := members inner (by simp [labels, present])
  simp only [labels, List.mem_cons, List.mem_append] at listed
  rcases listed with rfl | inside | beyond
  · exact absurd (List.mem_append_right _ present) apart
  · exact absurd present (across inner (others inner inside))
  · exact beyond

/-- The places of two groves with the same label have the same labels above them. -/
def SameAbove (g h : Grove α) : Prop :=
  ∀ a ∈ g.places, ∀ b ∈ h.places, a.label = b.label → ∀ outer, outer ∈ a.above ↔ outer ∈ b.above

namespace SameAbove

section Whole

variable {g h : Grove α} (same : g.SameAbove h)

include same

/-- Having the same labels above holds in either order. -/
theorem symm : h.SameAbove g :=
  fun b right a left equal outer => (same a left b right equal.symm outer).symm

/-- Groves with the same labels, and the same above each, have the same labels at the top. -/
theorem roots_subset (members : ∀ label ∈ g.labels, label ∈ h.labels) :
    ∀ root ∈ g.roots, root ∈ h.roots := by
  intro root top
  obtain ⟨a, left, rfl, alone⟩ := (mem_roots_iff g root).mp top
  have present := members _ (label_mem_of_mem_placesBelow left)
  obtain ⟨b, right, equal⟩ := exists_place_of_mem_labels [] present
  have empty : b.above = [] := by
    refine List.eq_nil_iff_forall_not_mem.mpr fun outer higher => ?_
    have upper := (same a left b right equal.symm outer).mpr higher
    rw [alone] at upper
    contradiction
  exact (mem_roots_iff h a.label).mpr ⟨b, right, equal, empty⟩

end Whole

section FirstTree

variable {label : α} {below beside lower right : Grove α}
  (same : (node label below beside).SameAbove (node label lower right))

include same

/-- What is above the labels beside the first tree does not differ. -/
theorem besideTree : beside.SameAbove right := by
  have places (g h : Grove α) : ∀ place ∈ h.places, place ∈ (node label g h).places := by
    intro place placed
    rw [places_node]
    simp [placed]
  exact fun a left b other => same a (places _ _ a left) b (places _ _ b other)

variable (distinct : (node label below beside).labels.Nodup)
  (again : (node label lower right).labels.Nodup)

include distinct again

/-- What is above the labels below the root does not differ. -/
theorem belowRoot : below.SameAbove lower := by
  intro a left b other equal outer
  have places (g h : Grove α) : ∀ place ∈ g.places,
      (⟨place.label, place.below, place.above ++ [label]⟩ : Place α) ∈ (node label g h).places := by
    intro place placed
    rw [places_node]
    simp only [List.mem_cons, List.mem_append, List.mem_map]
    exact .inr (.inl ⟨place, placed, rfl⟩)
  have whole := same _ (places below beside a left) _ (places lower right b other) equal outer
  have apart (g h : Grove α) (once : (node label g h).labels.Nodup) : ∀ place ∈ g.places,
      label ∉ place.above := fun place placed higher =>
    (nodup_node once).1 (List.mem_append_left _ (mem_labels_of_mem_above placed label higher))
  simp only [List.mem_append, List.mem_singleton] at whole
  by_cases root : outer = label
  · subst root
    exact iff_of_false (apart _ _ distinct a left) (apart _ _ again b other)
  · simpa [root] using whole

/-- If the first trees have one root, the labels below it are the same. -/
theorem below_subset
    (members : ∀ inner ∈ (node label below beside).labels,
      inner ∈ (node label lower right).labels) :
    ∀ inner ∈ below.labels, inner ∈ lower.labels := by
  intro inner present
  have listed : inner ∈ (node label below beside).labels := by simp [labels, present]
  obtain ⟨a, left, rfl⟩ := exists_place_of_mem_labels [] listed
  obtain ⟨b, other, equal⟩ := exists_place_of_mem_labels [] (members _ listed)
  rw [← equal, ← mem_above_node_iff again b other, ← same a left b other equal.symm,
    mem_above_node_iff distinct a left]
  exact present

end FirstTree

end SameAbove

namespace Ordered

variable [Std.Irrefl before] [Std.Antisymm before] {g h : Grove α} (ordered : g.Ordered before)
  (other : h.Ordered before)

include ordered other

/-- In an order, the labels at the top are determined by the labels and by what is above each. -/
theorem roots_eq (members : ∀ label, label ∈ g.labels ↔ label ∈ h.labels)
    (same : g.SameAbove h) : g.roots = h.roots := by
  refine ordered.roots.eq_of_mem_iff other.roots fun root => ⟨?_, ?_⟩
  · exact same.roots_subset (fun label => (members label).mp) root
  · exact same.symm.roots_subset (fun label => (members label).mpr) root

/-- A grove without repeated labels whose siblings are ordered is determined by its labels and by
what is above each of them. The same label is first at the top of two such groves, so what is below
and beside it can be compared. -/
theorem eq_of_above (distinct : g.labels.Nodup) (again : h.labels.Nodup)
    (members : ∀ label, label ∈ g.labels ↔ label ∈ h.labels) (same : g.SameAbove h) : g = h := by
  induction g generalizing h with
  | nil =>
    cases h with
    | nil => rfl
    | node root => exact absurd ((members root).mpr List.mem_cons_self) List.not_mem_nil
  | node label below beside inner later =>
    cases h with
    | nil => exact absurd ((members label).mp List.mem_cons_self) List.not_mem_nil
    | node root lower right =>
      obtain ⟨rfl, -⟩ := List.cons.inj (ordered.roots_eq other members same)
      have into := fun inner => (members inner).mp
      have onto := fun inner => (members inner).mpr
      have forth := same.below_subset distinct again into
      have back := same.symm.below_subset again distinct onto
      have beyond := beside_subset distinct into back
      have home := beside_subset again onto forth
      obtain ⟨tops, children, families, others⟩ := ordered
      obtain ⟨otherTops, otherChildren, otherFamilies, otherOthers⟩ := other
      obtain ⟨-, below_distinct, beside_distinct, -⟩ := nodup_node distinct
      obtain ⟨-, lower_distinct, right_distinct, -⟩ := nodup_node again
      obtain rfl := inner ⟨children, families⟩ ⟨otherChildren, otherFamilies⟩ below_distinct
        lower_distinct (fun label => ⟨forth label, back label⟩) (same.belowRoot distinct again)
      obtain rfl := later ⟨tops.tail, others⟩ ⟨otherTops.tail, otherOthers⟩ beside_distinct
        right_distinct (fun label => ⟨beyond label, home label⟩) same.besideTree
      rfl

end Ordered

end Laminar.Grove
