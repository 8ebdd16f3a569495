/-!
# Groves

A grove is a finite sequence of ordered labelled trees. It is empty, or it has a first tree: a
label, the grove below it and the grove beside it to the right. All walks are by recursion on
this form, so a statement about every grove has two cases.
-/

namespace Laminar

/-- A sequence of ordered trees with labels. -/
inductive Grove (α : Type) where
  /-- No tree. -/
  | nil : Grove α
  /-- A first tree with its label and what is below it, and the trees beside it. -/
  | node (label : α) (below beside : Grove α) : Grove α

namespace Grove

variable {α β : Type}

/-- There is no tree. -/
def isEmpty : Grove α → Bool
  | nil => true
  | node .. => false

/-- The labels of the trees themselves, from left to right. -/
def roots : Grove α → List α
  | nil => []
  | node label _ beside => label :: beside.roots

/-- All labels, each before those below it, and those before the ones beside it. -/
def labels : Grove α → List α
  | nil => []
  | node label below beside => label :: (below.labels ++ beside.labels)

/-- The labels with nothing below them, from left to right. -/
def leaves : Grove α → List α
  | nil => []
  | node label below beside =>
    (if below.isEmpty then [label] else below.leaves) ++ beside.leaves

/-- The number of labels. -/
def size : Grove α → Nat
  | nil => 0
  | node _ below beside => 1 + below.size + beside.size

/-- The number of labels on a longest way down. -/
def height : Grove α → Nat
  | nil => 0
  | node _ below beside => max (1 + below.height) beside.height

/-- The grove with a function applied to every label. -/
def map (f : α → β) : Grove α → Grove β
  | nil => nil
  | node label below beside => node (f label) (below.map f) (beside.map f)

/-- The trees of one grove and then those of another. -/
def append : Grove α → Grove α → Grove α
  | nil, right => right
  | node label below beside, right => node label below (beside.append right)

/-- Groves are put beside each other. -/
instance : Append (Grove α) :=
  ⟨append⟩

/-- With no trees in front, a grove is as it was. -/
@[simp]
theorem nil_append (right : Grove α) : nil ++ right = right :=
  rfl

/-- Trees put after a tree and those beside it come after these. -/
@[simp]
theorem node_append (label : α) (below beside right : Grove α) :
    node label below beside ++ right = node label below (beside ++ right) :=
  rfl

/-- The labels of the first grove come before those of the second. -/
@[simp]
theorem labels_append (left right : Grove α) :
    (left ++ right).labels = left.labels ++ right.labels := by
  induction left with
  | nil => rfl
  | node label below beside _ later => simp [labels, later]

/-- Every label is counted once. -/
@[simp]
theorem length_labels (g : Grove α) : g.labels.length = g.size := by
  induction g with
  | nil => rfl
  | node label below beside inner later =>
    simp only [labels, size, List.length_cons, List.length_append, inner, later]
    omega

/-- A function applied to every label is applied to every member of the list of labels. -/
@[simp]
theorem labels_map (f : α → β) (g : Grove α) : (g.map f).labels = g.labels.map f := by
  induction g with
  | nil => rfl
  | node label below beside inner later => simp [map, labels, inner, later]

/-- A function on labels changes no shape. -/
@[simp]
theorem isEmpty_map (f : α → β) (g : Grove α) : (g.map f).isEmpty = g.isEmpty := by
  cases g <;> rfl

/-- A function on labels changes no height. -/
@[simp]
theorem height_map (f : α → β) (g : Grove α) : (g.map f).height = g.height := by
  induction g with
  | nil => rfl
  | node label below beside inner later => simp [map, height, inner, later]

/-- A function on labels changes no size. -/
@[simp]
theorem size_map (f : α → β) (g : Grove α) : (g.map f).size = g.size := by
  rw [← length_labels, labels_map, List.length_map, length_labels]

/-- A function applied to every label is applied to every leaf. -/
@[simp]
theorem leaves_map (f : α → β) (g : Grove α) : (g.map f).leaves = g.leaves.map f := by
  induction g with
  | nil => rfl
  | node label below beside inner later =>
    simp only [map, leaves, isEmpty_map, inner, later, List.map_append]
    split <;> rfl

/-- Two functions on labels are applied one after the other. -/
theorem map_map {γ : Type} (f : α → β) (k : β → γ) (g : Grove α) :
    (g.map f).map k = g.map fun label => k (f label) := by
  induction g with
  | nil => rfl
  | node label below beside inner later => simp only [map, inner, later]

/-- The function that changes no label changes no grove. -/
@[simp]
theorem map_id (g : Grove α) : g.map id = g := by
  induction g with
  | nil => rfl
  | node label below beside inner later => rw [map, inner, later, id]

/-- One tree. -/
def tree (label : α) (below : Grove α) : Grove α :=
  node label below nil

/-- The labels numbered in the order of `labels`, from `next` on. -/
def number (next : Nat) : Grove α → Grove (Nat × α)
  | nil => nil
  | node label below beside =>
    node (next, label) (below.number (next + 1)) (beside.number (next + 1 + below.size))

/-- Numbering keeps the labels. -/
@[simp]
theorem map_snd_labels_number (next : Nat) (g : Grove α) :
    (g.number next).labels.map Prod.snd = g.labels := by
  induction g generalizing next with
  | nil => rfl
  | node label below beside inner later => simp [number, labels, inner, later]

/-- The numbers count up in the order of the labels. -/
@[simp]
theorem map_fst_labels_number (next : Nat) (g : Grove α) :
    (g.number next).labels.map Prod.fst = List.range' next g.size := by
  induction g generalizing next with
  | nil => rfl
  | node label below beside inner later =>
    have total : 1 + below.size + beside.size = below.size + beside.size + 1 := by omega
    simp only [number, labels, size, List.map_cons, List.map_append, inner, later, total,
      List.range'_succ, List.range'_append_1]

/-- The grove without the labels that `keep` refuses and all that is below them. -/
def prune (keep : α → Bool) : Grove α → Grove α
  | nil => nil
  | node label below beside =>
    if keep label then node label (below.prune keep) (beside.prune keep)
    else beside.prune keep

/-- The trees whose labels are chosen, and the others, each in their order. The choices are made
from left to right, and each may depend on what the earlier ones left behind. -/
def separate {σ : Type} (choose : α → StateM σ Bool) : Grove α → StateM σ (Grove α × Grove α)
  | nil => return (nil, nil)
  | node label below beside => do
    let chosen ← choose label
    let (taken, kept) ← separate choose beside
    return if chosen then (node label below taken, kept) else (taken, node label below kept)

/-- A place in a grove: the label there, what is below it, and the labels above it. -/
structure Place (α : Type) where
  /-- The label at the place. -/
  label : α
  /-- The grove below the place. -/
  below : Grove α
  /-- The labels above the place, the nearest first. -/
  above : List α

namespace Place

/-- The label just above, if the place is not at the top. -/
def parent? (place : Place α) : Option α :=
  place.above.head?

/-- The labels just below, from left to right. -/
def children (place : Place α) : List α :=
  place.below.roots

/-- There is nothing below the place. -/
def isLeaf (place : Place α) : Bool :=
  place.below.isEmpty

end Place

/-- The places of a grove that lies below `above`, in the order of `labels`. -/
def placesBelow (above : List α) : Grove α → List (Place α)
  | nil => []
  | node label below beside =>
    ⟨label, below, above⟩ :: (below.placesBelow (label :: above) ++ beside.placesBelow above)

/-- The places of a grove, in the order of `labels`. -/
def places (g : Grove α) : List (Place α) :=
  g.placesBelow []

/-- The places of a grove below `above` have its labels, in their order. -/
@[simp]
theorem map_label_placesBelow (above : List α) (g : Grove α) :
    (g.placesBelow above).map Place.label = g.labels := by
  induction g generalizing above with
  | nil => rfl
  | node label below beside inner later => simp [placesBelow, labels, inner, later]

/-- The places of a grove have its labels, in their order. -/
@[simp]
theorem map_label_places (g : Grove α) : g.places.map Place.label = g.labels :=
  map_label_placesBelow [] g

/-- Every label with the label just above it, in the order of `labels`. -/
def links (g : Grove α) : List (α × Option α) :=
  g.places.map fun place => (place.label, place.parent?)

/-- The links are those of the labels, in their order. -/
@[simp]
theorem map_fst_links (g : Grove α) : g.links.map Prod.fst = g.labels := by
  simp only [links, List.map_map]
  exact map_label_places g

end Grove

end Laminar
