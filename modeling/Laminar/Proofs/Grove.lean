import Laminar.Grove

/-!
# Families and ways of a grove

A family is a label with the labels just below it, and the way to a place is the list of labels
from the top down to it. A condition on families is a condition on all places
(`families_iff`), it is kept when trees are joined, and a transitive relation between every label
and its children holds between every label and all labels below it (`Families.above`), so what
lies above a place is a chain (`Families.chain`). The leaves of a grove are the labels of its places
without children.
-/

namespace Laminar.Grove

variable {α β : Type}

/-- The labels on the way down to a place, its own label last. -/
def Place.path (place : Place α) : List α :=
  (place.label :: place.above).reverse

/-- A path leads over the labels above a place, the outermost first, to its own label. -/
theorem Place.path_eq (place : Place α) : place.path = place.above.reverse ++ [place.label] :=
  List.reverse_cons

/-- Every label stands in `family` with the list of the labels just below it. -/
def Families (family : α → List α → Prop) : Grove α → Prop
  | nil => True
  | node label below beside =>
    family label below.roots ∧ below.Families family ∧ beside.Families family

/-- With no trees after it, a grove is as it was. -/
@[simp]
theorem append_nil (g : Grove α) : g ++ nil = g := by
  induction g with
  | nil => rfl
  | node label below beside _ later => rw [node_append, later]

/-- The labels at the top of groves beside each other. -/
@[simp]
theorem roots_append (left right : Grove α) :
    (left ++ right).roots = left.roots ++ right.roots := by
  induction left with
  | nil => rfl
  | node label below beside _ later => simp [roots, later]

/-- The number of labels of groves beside each other. -/
@[simp]
theorem size_append (left right : Grove α) : (left ++ right).size = left.size + right.size := by
  rw [← length_labels, labels_append, List.length_append, length_labels, length_labels]

/-- The labels of a tree are its top and those below. -/
@[simp]
theorem labels_tree (label : α) (below : Grove α) :
    (tree label below).labels = label :: below.labels := by
  rw [tree, labels, labels, List.append_nil]

/-- A tree has one label at the top. -/
@[simp]
theorem roots_tree (label : α) (below : Grove α) : (tree label below).roots = [label] :=
  rfl

/-- The labels of the trees themselves are labels of the grove, in the same order. -/
theorem roots_sublist_labels (g : Grove α) : g.roots.Sublist g.labels := by
  induction g with
  | nil => exact List.Sublist.refl _
  | node label below beside _ later =>
    exact List.Sublist.cons_cons label (later.trans (List.sublist_append_right _ _))

/-- A grove is empty if it has no tree. -/
theorem isEmpty_iff_eq_nil (g : Grove α) : g.isEmpty = true ↔ g = nil := by
  cases g <;> simp [isEmpty]

/-- A grove is empty if it has no label at the top. -/
theorem isEmpty_iff_roots (g : Grove α) : g.isEmpty = true ↔ g.roots = [] := by
  cases g <;> simp [isEmpty, roots]

/-- A longest way down has no more labels than there are. -/
theorem height_le_size (g : Grove α) : g.height ≤ g.size := by
  induction g with
  | nil => exact Nat.le_refl 0
  | node label below beside inner later =>
    rw [height, size]
    omega

/-- The higher one of groves beside each other gives the height. -/
theorem height_append (left right : Grove α) :
    (left ++ right).height = max left.height right.height := by
  induction left with
  | nil => exact (Nat.zero_max _).symm
  | node label below beside _ later =>
    rw [node_append, height, later, height, Nat.max_assoc]

/-- Every place of a grove has a label of the grove. -/
theorem label_mem_of_mem_placesBelow {above : List α} {g : Grove α} {place : Place α}
    (placed : place ∈ g.placesBelow above) : place.label ∈ g.labels := by
  rw [← map_label_placesBelow above g]
  exact List.mem_map_of_mem placed

/-- Every label of a grove has a place. -/
theorem exists_place_of_mem_labels {label : α} {g : Grove α} (above : List α)
    (present : label ∈ g.labels) : ∃ place ∈ g.placesBelow above, place.label = label := by
  rw [← map_label_placesBelow above g] at present
  exact List.mem_map.mp present

/-- What lies above a grove lies above each of its places. -/
theorem suffix_above {above : List α} {g : Grove α} {place : Place α}
    (placed : place ∈ g.placesBelow above) : above <:+ place.above := by
  induction g generalizing above with
  | nil => simp [placesBelow] at placed
  | node label below beside inner later =>
    simp only [placesBelow, List.mem_cons, List.mem_append] at placed
    rcases placed with rfl | placed | placed
    · exact List.suffix_rfl
    · exact (List.suffix_cons label above).trans (inner placed)
    · exact later placed

/-- The leaves are the labels of the places without children. -/
theorem map_label_filter_isLeaf (above : List α) (g : Grove α) :
    ((g.placesBelow above).filter Place.isLeaf).map Place.label = g.leaves := by
  induction g generalizing above with
  | nil => rfl
  | node label below beside inner later =>
    have top : Place.isLeaf ⟨label, below, above⟩ = below.isEmpty := rfl
    cases below with
    | nil =>
      rw [placesBelow, List.filter_cons, top, leaves]
      simp only [isEmpty, ↓reduceIte, placesBelow, List.nil_append, List.map_cons, later,
        List.cons_append]
    | node child lower next =>
      rw [placesBelow, List.filter_cons, top, leaves]
      simp only [isEmpty, Bool.false_eq_true, ↓reduceIte, List.filter_append, List.map_append,
        inner, later]

/-! ## Families -/

/-- The families of a grove are those of its places, whatever lies above it. -/
theorem families_iff_placesBelow (family : α → List α → Prop) (above : List α) (g : Grove α) :
    g.Families family ↔ ∀ place ∈ g.placesBelow above, family place.label place.children := by
  induction g generalizing above with
  | nil => simp [Families, placesBelow]
  | node label below beside inner later =>
    simp only [Families, placesBelow, List.forall_mem_cons, List.forall_mem_append,
      inner (label :: above), later above, Place.children]

/-- The families of a grove are those of its places. -/
theorem families_iff (family : α → List α → Prop) (g : Grove α) :
    g.Families family ↔ ∀ place ∈ g.places, family place.label place.children :=
  families_iff_placesBelow family [] g

/-- The families below a place are families of the grove. -/
theorem Families.below {family : α → List α → Prop} {g : Grove α} (families : g.Families family) :
    ∀ place ∈ g.places, place.below.Families family := by
  suffices lower : ∀ above, ∀ place ∈ g.placesBelow above, place.below.Families family from lower []
  induction g with
  | nil => simp [placesBelow]
  | node label below beside inner later =>
    obtain ⟨-, families, others⟩ := families
    intro above
    simp only [placesBelow, List.forall_mem_cons, List.forall_mem_append]
    exact ⟨families, inner families _, later others _⟩

/-- The families of joined groves are those of either. -/
@[simp]
theorem families_append (family : α → List α → Prop) (left right : Grove α) :
    (left ++ right).Families family ↔ left.Families family ∧ right.Families family := by
  induction left with
  | nil => simp [Families]
  | node label below beside _ later => simp [Families, later, and_assoc]

/-- Families that satisfy a condition satisfy a weaker one. -/
theorem Families.imp {family weaker : α → List α → Prop} {g : Grove α}
    (weaken : ∀ label children, family label children → weaker label children)
    (families : g.Families family) : g.Families weaker := by
  induction g with
  | nil => trivial
  | node label below beside inner later =>
    exact ⟨weaken _ _ families.1, inner families.2.1, later families.2.2⟩

/-- A relation between labels and their children, if it is transitive, relates every label to all
those below it, so the labels above a place make a chain. -/
theorem Families.placesBelow_chain {relates : α → α → Prop}
    (transitive : ∀ a b c, relates a b → relates b c → relates a c) {above : List α} {g : Grove α}
    (families : g.Families fun label children => ∀ child ∈ children, relates label child)
    (outside : ∀ root ∈ g.roots, (root :: above).Pairwise fun near far => relates far near) :
    ∀ place ∈ g.placesBelow above,
      (place.label :: place.above).Pairwise fun near far => relates far near := by
  induction g generalizing above with
  | nil => simp [placesBelow]
  | node label below beside inner later =>
    obtain ⟨children, families, others⟩ := families
    obtain ⟨here, outside⟩ := List.forall_mem_cons.mp outside
    simp only [placesBelow, List.forall_mem_cons, List.forall_mem_append]
    refine ⟨here, inner families ?_, later others outside⟩
    intro root child
    refine List.Pairwise.cons ?_ here
    intro ancestor higher
    rcases List.mem_cons.mp higher with rfl | higher
    · exact children root child
    · exact transitive _ _ _ ((List.pairwise_cons.mp here).1 ancestor higher) (children root child)

/-- In a whole grove, a transitive relation between labels and their children makes a chain of every
place and what lies above it. -/
theorem Families.chain {relates : α → α → Prop}
    (transitive : ∀ a b c, relates a b → relates b c → relates a c) {g : Grove α}
    (families : g.Families fun label children => ∀ child ∈ children, relates label child) :
    ∀ place ∈ g.places,
      (place.label :: place.above).Pairwise fun near far => relates far near :=
  families.placesBelow_chain transitive fun _ _ => List.pairwise_singleton _ _

/-- In a whole grove, a transitive relation between labels and their children relates every label
to all those below it. -/
theorem Families.above {relates : α → α → Prop}
    (transitive : ∀ a b c, relates a b → relates b c → relates a c) {g : Grove α}
    (families : g.Families fun label children => ∀ child ∈ children, relates label child) :
    ∀ place ∈ g.places, ∀ ancestor ∈ place.above, relates ancestor place.label :=
  fun place placed => (List.pairwise_cons.mp (families.chain transitive place placed)).1

/-- Every label lies in the tree of a root, which a transitive relation between labels and their
children relates to it. -/
theorem Families.exists_root {relates : α → α → Prop}
    (transitive : ∀ a b c, relates a b → relates b c → relates a c) {g : Grove α}
    (families : g.Families fun label children => ∀ child ∈ children, relates label child) :
    ∀ label ∈ g.labels, ∃ root ∈ g.roots, root = label ∨ relates root label := by
  induction g with
  | nil => simp [labels]
  | node top below beside inner later =>
    obtain ⟨children, families, others⟩ := families
    simp only [labels, List.forall_mem_cons, List.forall_mem_append]
    refine ⟨⟨top, List.mem_cons_self, .inl rfl⟩, ?_, ?_⟩
    · intro label lower
      obtain ⟨root, child, covers⟩ := inner families label lower
      refine ⟨top, List.mem_cons_self, .inr ?_⟩
      rcases covers with rfl | covers
      · exact children root child
      · exact transitive _ _ _ (children root child) covers
    · intro label right
      obtain ⟨root, present, covers⟩ := later others label right
      exact ⟨root, List.mem_cons_of_mem top present, covers⟩

/-- The labels between a place and what lies above the grove have children, so they satisfy what
every label with children does. -/
theorem Families.placesBelow_inner {inside : α → Prop} {above : List α} {g : Grove α}
    (families : g.Families fun label children => children ≠ [] → inside label) :
    ∀ place ∈ g.placesBelow above,
      ∃ between, place.above = between ++ above ∧ ∀ ancestor ∈ between, inside ancestor := by
  induction g generalizing above with
  | nil => simp [placesBelow]
  | node label below beside inner later =>
    obtain ⟨parent, families, others⟩ := families
    simp only [placesBelow, List.forall_mem_cons, List.forall_mem_append]
    refine ⟨⟨[], rfl, by simp⟩, ?_, later others⟩
    intro place placed
    obtain ⟨between, split, within⟩ := inner families place placed
    have child : below.roots ≠ [] := by
      cases below with
      | nil => simp [placesBelow] at placed
      | node => simp [roots]
    refine ⟨between ++ [label], by rw [split, List.append_assoc, List.singleton_append], ?_⟩
    rw [List.forall_mem_append, List.forall_mem_singleton]
    exact ⟨within, parent child⟩

/-- What lies above a place of a whole grove are labels of the grove. -/
theorem mem_labels_of_mem_above {g : Grove α} {place : Place α} (placed : place ∈ g.places) :
    ∀ ancestor ∈ place.above, ancestor ∈ g.labels := by
  have labels : g.Families fun label children => children ≠ [] → label ∈ g.labels :=
    (families_iff _ g).mpr fun place placed _ => label_mem_of_mem_placesBelow placed
  obtain ⟨between, split, present⟩ := labels.placesBelow_inner place placed
  rw [split, List.append_nil]
  exact present

/-- Every link of a grove that lies below `above` satisfies a relation if and only if the families
and the labels at the top do. -/
theorem families_iff_parent? (relates : α → α → Prop) (above : List α) (g : Grove α) :
    (∀ place ∈ g.placesBelow above, ∀ outer ∈ place.parent?, relates outer place.label) ↔
      (∀ root ∈ g.roots, ∀ outer ∈ above.head?, relates outer root) ∧
        g.Families fun label children => ∀ child ∈ children, relates label child := by
  induction g generalizing above with
  | nil => simp [placesBelow, roots, Families]
  | node label below beside inner later =>
    simp only [placesBelow, List.forall_mem_cons, List.forall_mem_append]
    rw [inner, later]
    simp only [roots, List.forall_mem_cons, Families, List.head?_cons, Option.mem_some_iff,
      forall_eq', Place.parent?]
    constructor
    · rintro ⟨top, ⟨children, below⟩, tops, beside⟩
      exact ⟨⟨top, tops⟩, children, below, beside⟩
    · rintro ⟨⟨top, tops⟩, children, below, beside⟩
      exact ⟨top, ⟨children, below⟩, tops, beside⟩

/-- The links of a grove satisfy a relation if and only if the families do. -/
theorem forall_links_iff (relates : α → α → Prop) (g : Grove α) :
    (∀ link ∈ g.links, ∀ outer ∈ link.2, relates outer link.1) ↔
      g.Families fun label children => ∀ child ∈ children, relates label child := by
  have top := families_iff_parent? relates [] g
  simpa [links, places] using top

/-- The label at the upper end of a link is a label of the grove. -/
theorem mem_labels_of_mem_links {g : Grove α} {link : α × Option α} (linked : link ∈ g.links)
    {outer : α} (upper : outer ∈ link.2) : outer ∈ g.labels := by
  have parents : g.Families fun label children => ∀ child ∈ children, label ∈ g.labels :=
    (families_iff _ g).mpr fun place placed _ _ => label_mem_of_mem_placesBelow placed
  exact (forall_links_iff (fun label _ => label ∈ g.labels) g).mpr parents link linked outer upper

end Laminar.Grove
