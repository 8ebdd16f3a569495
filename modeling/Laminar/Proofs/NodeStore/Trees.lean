import Laminar.Proofs.Grove.Links
import Laminar.Proofs.NodeStore

/-!
# Trees in a node store

Links make trees of the nodes below a slot. `Unfolds` says which trees these are, with the labels of
the nodes and all children in order, and `Links` says only which slots each node has for children.
Adoptions of the links of a grove of slots, made in any order, link a store to the grove
(`links_adoptEach`).
-/

namespace Laminar.NodeStore

variable {α : Type} {store : NodeStore α}

/-- The label of the node in a slot. -/
def label? (store : NodeStore α) (slot : Slot) : Option α :=
  (store.node? slot).map Node.label

/-- A node that names its parent is not changed by naming it again. -/
theorem map_parent_of_parent? {slot parent : Slot} (named : store.parent? slot = some parent) :
    ((store.node? slot).map fun node => { node with parent := some parent }) =
      store.node? slot := by
  obtain ⟨node, found, above⟩ := Option.bind_eq_some_iff.mp named
  rw [found, ← above]
  rfl

/-- A slot that names a parent has a node. -/
theorem lt_size_of_parent? {slot parent : Slot} (named : store.parent? slot = some parent) :
    slot < store.size := by
  obtain ⟨node, found, -⟩ := Option.bind_eq_some_iff.mp named
  exact lt_size_of_node? found

/-- A slot with a child has a node. -/
theorem lt_size_of_mem_children {owner child : Slot} (listed : child ∈ store.children owner) :
    owner < store.size := by
  rw [children] at listed
  split at listed
  · next node found => exact lt_size_of_node? found
  · contradiction

/-- New children change no label. -/
theorem label?_setChildren (parent : Slot) (children : List Slot) (slot : Slot) :
    (store.setChildren parent children).label? slot = store.label? slot := by
  rw [label?, label?, setChildren, node?_update, node?_foldl_setParent]
  split <;> split <;> simp only [Option.map_map] <;> rfl

/-- The nodes in some slots, with all below them, are the trees of a grove, and each child names the
node above it as its parent. -/
inductive Unfolds (store : NodeStore α) : List Slot → Grove α → Prop
  /-- No slot, no tree. -/
  | nil : Unfolds store [] .nil
  /-- A first slot with the tree of its node, and other slots. -/
  | node {slot : Slot} {rest children : List Slot} {label : α} {parent : Option Slot}
      {below beside : Grove α} (here : store.node? slot = some ⟨label, parent, children⟩)
      (named : ∀ child ∈ children, store.parent? child = some slot)
      (lower : Unfolds store children below) (right : Unfolds store rest beside) :
      Unfolds store (slot :: rest) (.node label below beside)

namespace Unfolds

/-- Further slots add their trees beside the others. -/
theorem append {slots others : List Slot} {g right : Grove α} (unfolds : Unfolds store slots g)
    (more : Unfolds store others right) : Unfolds store (slots ++ others) (g ++ right) := by
  induction unfolds with
  | nil => exact more
  | node here named lower _ _ later => exact .node here named lower later

/-- The slots have the labels of the trees themselves. -/
theorem map_label? {slots : List Slot} {g : Grove α} (unfolds : Unfolds store slots g) :
    slots.map store.label? = g.roots.map some := by
  induction unfolds with
  | nil => rfl
  | node here _ _ _ _ later => rw [List.map_cons, later, label?, here, Grove.roots]; rfl

end Unfolds

/-- The nodes in the slots of a grove have those just below as their children, in any order. -/
def Links (store : NodeStore α) (g : Grove Slot) : Prop :=
  g.Families fun slot children => ∃ node, store.node? slot = some node ∧ node.children.Perm children

/-! ## Adoptions -/

section Adoptions

variable {root : Slot} {below : Grove Slot} {pairs : List (Slot × Slot)}
  (distinct : (Grove.tree root below).labels.Nodup)
  (same : pairs.Perm (below.links.map fun link => (link.2.getD root, link.1)))

include same

/-- The pairs are the links of the tree. -/
theorem mem_pairs_iff (owner child : Slot) :
    (owner, child) ∈ pairs ↔ (child, some owner) ∈ (Grove.tree root below).links := by
  rw [same.mem_iff, Grove.links_tree]
  simp [and_comm]

/-- All labels below the root are adopted. -/
theorem map_snd_pairs_perm : (pairs.map Prod.snd).Perm below.labels := by
  have members := same.map Prod.snd
  rw [List.map_map] at members
  rw [← Grove.map_fst_links]
  exact members

include distinct

/-- A child is adopted once. -/
theorem nodup_snd_pairs : (pairs.map Prod.snd).Nodup := by
  rw [Grove.labels_tree] at distinct
  exact (map_snd_pairs_perm same).nodup_iff.mpr (List.nodup_cons.mp distinct).2

/-- A node is not adopted by itself. -/
theorem fst_ne_snd_of_mem_pairs : ∀ pair ∈ pairs, pair.1 ≠ pair.2 := by
  rintro ⟨owner, child⟩ present
  obtain ⟨place, placed, rfl, lower⟩ :=
    (Grove.some_mem_links_iff _ _ _).mp ((mem_pairs_iff same owner child).mp present)
  have family := (Grove.families_iff _ _).mp (Grove.families_nodup distinct) place placed
  show place.label ≠ child
  rintro rfl
  exact (List.nodup_cons.mp family).1 lower

/-- The children that the pairs give to a label of the tree are those just below it. -/
theorem children_perm_of_pairs {place : Grove.Place Slot}
    (placed : place ∈ (Grove.tree root below).places) :
    ((pairs.filter fun pair => pair.1 = place.label).map Prod.snd).Perm place.children := by
  have family := (Grove.families_iff _ _).mp (Grove.families_nodup distinct) place placed
  have once : ((pairs.filter fun pair => pair.1 = place.label).map Prod.snd).Nodup :=
    (nodup_snd_pairs distinct same).sublist (List.filter_sublist.map Prod.snd)
  refine (List.perm_ext_iff_of_nodup once (List.nodup_cons.mp family).2).mpr fun child => ?_
  have listed : child ∈ (pairs.filter fun pair => pair.1 = place.label).map Prod.snd ↔
      (place.label, child) ∈ pairs := by
    simp
  rw [listed, mem_pairs_iff same, Grove.some_mem_links_iff]
  constructor
  · rintro ⟨other, present, label, lower⟩
    rw [← Grove.eq_of_mem_places distinct present placed label]
    exact lower
  · exact fun lower => ⟨place, placed, rfl, lower⟩

variable (bare : ∀ slot node, store.node? slot = some node →
  node.parent = none ∧ node.children = [])

include bare

/-- Adoptions of the links of a tree, in any order, give each node the children just below it. -/
theorem links_adoptEach (present : ∀ slot ∈ (Grove.tree root below).labels, slot < store.size) :
    (store.adoptEach pairs).Links (.tree root below) := by
  refine (Grove.families_iff _ _).mpr fun place placed => ?_
  have filled := present _ (Grove.label_mem_of_mem_placesBelow placed)
  obtain ⟨node, found⟩ : ∃ node, store.node? place.label = some node :=
    ⟨_, Array.getElem?_eq_getElem filled⟩
  refine ⟨_, by rw [node?_adoptEach _ (fst_ne_snd_of_mem_pairs distinct same)
    (nodup_snd_pairs distinct same), found, Option.map_some], ?_⟩
  rw [(bare _ _ found).2, List.nil_append]
  exact children_perm_of_pairs distinct same placed

/-- The root of the tree is not adopted. -/
theorem parent?_adoptEach_root : (store.adoptEach pairs).parent? root = none := by
  have unlisted : pairs.find? (fun pair => pair.2 = root) = none := by
    rw [Grove.labels_tree, List.nodup_cons, ← (map_snd_pairs_perm same).mem_iff] at distinct
    refine List.find?_eq_none.mpr fun pair present adopts => distinct.1 ?_
    exact List.mem_map.mpr ⟨pair, present, of_decide_eq_true adopts⟩
  rw [parent?, node?_adoptEach _ (fst_ne_snd_of_mem_pairs distinct same)
    (nodup_snd_pairs distinct same), unlisted]
  cases found : store.node? root with
  | none => rfl
  | some node => exact (bare _ _ found).1

/-- Then every child names the node above it, which is another one. -/
theorem named_adoptEach (present : ∀ slot ∈ (Grove.tree root below).labels, slot < store.size)
    (slot : Slot) :
    ∀ child ∈ (store.adoptEach pairs).children slot,
      (store.adoptEach pairs).parent? child = some slot ∧ child ≠ slot := by
  have different := fst_ne_snd_of_mem_pairs distinct same
  have once := nodup_snd_pairs distinct same
  intro child listed
  have adopted : (slot, child) ∈ pairs := by
    cases found : store.node? slot with
    | none =>
      rw [children, node?_adoptEach _ different once, found] at listed
      contradiction
    | some node =>
      rw [children_adoptEach _ different once found, (bare _ _ found).2] at listed
      simpa using listed
  have filled := present child (by
    rw [← Grove.map_fst_links]
    exact List.mem_map_of_mem ((mem_pairs_iff same slot child).mp adopted))
  obtain ⟨node, found⟩ : ∃ node, store.node? child = some node :=
    ⟨_, Array.getElem?_eq_getElem filled⟩
  have adopter : pairs.find? (fun pair => pair.2 = child) = some (slot, child) := by
    cases search : pairs.find? fun pair => pair.2 = child with
    | none =>
      have missed := List.find?_eq_none.mp search _ adopted
      simp at missed
    | some pair =>
      have adopts : pair.2 = child := by simpa using List.find?_some search
      exact congrArg some
        (List.inj_on_of_nodup_map once (List.mem_of_find?_eq_some search) adopted adopts)
  refine ⟨?_, fun itself => different _ adopted itself.symm⟩
  rw [parent?, node?_adoptEach _ different once, found, adopter]
  rfl

end Adoptions

end Laminar.NodeStore
