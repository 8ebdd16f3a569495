import Mathlib.Data.List.Basic
import Laminar.NodeStore

/-!
# Nodes after an operation

For each operation of a node store, the node that is in a slot afterwards. An operation changes the
nodes that it names and no other, so what is known of the other slots stays true.
-/

namespace Laminar.NodeStore

variable {α : Type} (store : NodeStore α)

/-- A slot with a node is one of those in use. -/
theorem lt_size_of_node? {store : NodeStore α} {slot : Slot} {node : Node α}
    (found : store.node? slot = some node) : slot < store.size :=
  (Array.getElem?_eq_some_iff.mp found).1

/-- The children of a slot with a node are the node's. -/
theorem children_of_node? {store : NodeStore α} {slot : Slot} {node : Node α}
    (found : store.node? slot = some node) : store.children slot = node.children := by
  rw [children, found]

/-- A change of one link to the parent shows in one slot. -/
theorem node?_setParent (parent : Option Slot) (child slot : Slot) :
    (store.setParent parent child).node? slot =
      if child = slot then (store.node? slot).map ({ · with parent }) else store.node? slot :=
  node?_update ..

/-- A change of some links to parents shows in their slots. -/
theorem node?_foldl_setParent (parent : Option Slot) (slots : List Slot) (slot : Slot) :
    (slots.foldl (fun result child => result.setParent parent child) store).node? slot =
      if slot ∈ slots then (store.node? slot).map ({ · with parent }) else store.node? slot := by
  induction slots generalizing store with
  | nil => simp
  | cons first rest later =>
    rw [List.foldl_cons, later, node?_setParent]
    by_cases same : first = slot
    · subst same
      cases store.node? first <;> simp
    · have other : slot ≠ first := fun h => same h.symm
      simp [same, other]

/-- Naming other parents makes no new node. -/
theorem size_foldl_setParent (parent : Option Slot) (slots : List Slot) :
    (slots.foldl (fun result child => result.setParent parent child) store).size = store.size := by
  induction slots generalizing store with
  | nil => rfl
  | cons first rest later => rw [List.foldl_cons, later, size_setParent]

/-- The new node is in the slot after all others. -/
theorem node?_addDetached (label : α) (slot : Slot) :
    (store.addDetached label).node? slot =
      if slot = store.size then some ⟨label, none, []⟩ else store.node? slot := by
  show (store.nodes.push ⟨label, none, []⟩)[slot]? = _
  rw [Array.getElem?_push]
  rfl

/-- Adding nodes one by one makes one for each label. -/
@[simp]
theorem size_addEach (labels : List α) :
    (store.addEach labels).size = store.size + labels.length := by
  induction labels generalizing store with
  | nil => rfl
  | cons label rest later =>
    show ((store.addDetached label).addEach rest).size = _
    rw [later, size_addDetached, List.length_cons]
    omega

/-- The new nodes are in the slots after all others, in their order. -/
theorem node?_addEach (labels : List α) (slot : Slot) :
    (store.addEach labels).node? slot =
      if slot < store.size then store.node? slot
      else labels[slot - store.size]?.map fun label => ⟨label, none, []⟩ := by
  induction labels generalizing store with
  | nil =>
    split
    · rfl
    · next past => exact Array.getElem?_eq_none (Nat.not_lt.mp past)
  | cons label rest later =>
    show ((store.addDetached label).addEach rest).node? slot = _
    rw [later, size_addDetached, node?_addDetached]
    by_cases new : slot = store.size
    · subst new
      simp
    · by_cases old : slot < store.size
      · rw [if_pos (Nat.lt_succ_of_lt old), if_neg new, if_pos old]
      · have past : store.size < slot := Nat.lt_of_le_of_ne (Nat.not_lt.mp old) (Ne.symm new)
        obtain ⟨beyond, rfl⟩ := Nat.exists_eq_add_of_lt past
        have next : store.size + beyond + 1 - store.size = beyond + 1 := by omega
        have left : store.size + beyond + 1 - (store.size + 1) = beyond := by omega
        rw [if_neg (Nat.not_lt.mpr past), if_neg old, next, left, List.getElem?_cons_succ]

/-- The adopted node is the last child of its new parent. -/
theorem node?_adopt {parent child : Slot} (different : parent ≠ child) (slot : Slot) :
    (store.adopt parent child).node? slot =
      if slot = child then (store.node? slot).map ({ · with parent := some parent })
      else if slot = parent then
        (store.node? slot).map fun node => { node with children := node.children ++ [child] }
      else store.node? slot := by
  rw [adopt, node?_setParent, node?_update]
  by_cases lower : slot = child
  · subst lower
    simp [different]
  · have other : child ≠ slot := fun h => lower h.symm
    by_cases upper : slot = parent
    · subst upper
      simp [lower, other]
    · have apart : parent ≠ slot := fun h => upper h.symm
      simp [lower, upper, other, apart]

/-- Linking nodes one by one makes no new one. -/
@[simp]
theorem size_adoptEach (pairs : List (Slot × Slot)) :
    (store.adoptEach pairs).size = store.size := by
  induction pairs generalizing store with
  | nil => rfl
  | cons pair rest later => exact (later (store.adopt pair.1 pair.2)).trans (size_adopt ..)

/-- Each node has one more child for each pair with its slot first, in their order, and the parent
that a pair with its slot second says. -/
theorem node?_adoptEach {pairs : List (Slot × Slot)} (different : ∀ pair ∈ pairs, pair.1 ≠ pair.2)
    (distinct : (pairs.map Prod.snd).Nodup) (slot : Slot) :
    (store.adoptEach pairs).node? slot = (store.node? slot).map fun node =>
      { node with
        parent := ((pairs.find? fun pair => pair.2 = slot).map Prod.fst).or node.parent
        children := node.children ++ (pairs.filter fun pair => pair.1 = slot).map Prod.snd } := by
  induction pairs generalizing store with
  | nil => cases found : store.node? slot <;> simp [adoptEach, found]
  | cons pair rest later =>
    obtain ⟨parent, child⟩ := pair
    obtain ⟨apart, different⟩ := List.forall_mem_cons.mp different
    obtain ⟨once, distinct⟩ := List.nodup_cons.mp distinct
    show ((store.adopt parent child).adoptEach rest).node? slot = _
    rw [later _ different distinct, node?_adopt _ apart]
    by_cases lower : slot = child
    · subst lower
      have none_other : rest.find? (fun pair => pair.2 = slot) = none := by
        rw [List.find?_eq_none]
        rintro pair present same
        exact once (List.mem_map.mpr ⟨pair, present, of_decide_eq_true same⟩)
      cases found : store.node? slot <;> simp [none_other, apart]
    · have other : child ≠ slot := fun h => lower h.symm
      by_cases upper : slot = parent
      · subst upper
        cases found : store.node? slot <;> simp [other, lower]
      · have apart : parent ≠ slot := fun h => upper h.symm
        cases found : store.node? slot <;> simp [other, lower, upper, apart]

/-- A node gets as further children, in their order, those that are paired with it. -/
theorem children_adoptEach {pairs : List (Slot × Slot)}
    (different : ∀ pair ∈ pairs, pair.1 ≠ pair.2)
    (distinct : (pairs.map Prod.snd).Nodup) {slot : Slot} {node : Node α}
    (found : store.node? slot = some node) :
    (store.adoptEach pairs).children slot =
      node.children ++ (pairs.filter fun pair => pair.1 = slot).map Prod.snd := by
  rw [children, node?_adoptEach store different distinct, found]
  rfl

/-- A new node below another is its last child. -/
theorem node?_add (label : α) {parent : Slot} (present : parent < store.size) (slot : Slot) :
    (store.add label (some parent)).node? slot =
      if slot = store.size then some ⟨label, some parent, []⟩
      else if slot = parent then
        (store.node? slot).map fun node => { node with children := node.children ++ [store.size] }
      else store.node? slot := by
  have different : parent ≠ store.nextSlot := Nat.ne_of_lt present
  show ((store.addDetached label).adopt parent store.nextSlot).node? slot = _
  rw [node?_adopt _ different, node?_addDetached]
  by_cases new : slot = store.size
  · subst new
    simp [nextSlot]
  · simp [new, nextSlot]

/-- The first `old` is replaced. -/
theorem replaceFirst_append {old new : Slot} {left right : List Slot} (first : old ∉ left) :
    replaceFirst old new (left ++ old :: right) = left ++ new :: right := by
  induction left with
  | nil => simp [replaceFirst]
  | cons slot rest later =>
    obtain ⟨other, first⟩ := not_or.mp (mt List.mem_cons.mpr first)
    have different : slot ≠ old := fun h => other h.symm
    rw [List.cons_append, replaceFirst, if_neg different, later first, List.cons_append]

/-- The new child is where the old one was, and the old one is detached. -/
theorem node?_replaceChild {parent old new : Slot} (listed : old ∈ store.children parent)
    (fresh : new ≠ parent) (other : old ≠ parent) (different : old ≠ new) (slot : Slot) :
    (store.replaceChild parent old new).1.node? slot =
      if slot = old then (store.node? slot).map ({ · with parent := none })
      else if slot = new then (store.node? slot).map ({ · with parent := some parent })
      else if slot = parent then
        (store.node? slot).map fun node =>
          { node with children := replaceFirst old new node.children }
      else store.node? slot := by
  rw [replaceChild, if_pos listed]
  simp only [node?_setParent, node?_update]
  by_cases left : slot = old
  · subst left
    simp [other.symm, different.symm]
  · by_cases right : slot = new
    · subst right
      simp [left, Ne.symm left, fresh.symm]
    · by_cases upper : slot = parent
      · subst upper
        simp [left, right, Ne.symm left, Ne.symm right]
      · simp [left, right, upper, Ne.symm left, Ne.symm right, Ne.symm upper]

/-- The chosen children are detached, and the others are left. -/
theorem node?_takeChildren {parent : Slot} {chosen : Slot → Bool}
    (apart : parent ∉ store.children parent) (slot : Slot) :
    (store.takeChildren parent chosen).1.node? slot =
      if slot = parent then
        (store.node? slot).map fun node =>
          { node with children := (store.children parent).filter fun child => !chosen child }
      else if slot ∈ (store.children parent).filter chosen then
        (store.node? slot).map ({ · with parent := none })
      else store.node? slot := by
  have parts := List.partition_eq_filter_filter (p := chosen) (l := store.children parent)
  rw [takeChildren, parts, node?_foldl_setParent, node?_update]
  by_cases upper : slot = parent
  · subst upper
    have kept : slot ∉ (store.children slot).filter chosen := fun h =>
      apart (List.mem_of_mem_filter h)
    rw [if_neg kept, if_pos rfl, if_pos rfl]
    rfl
  · rw [if_neg (Ne.symm upper), if_neg upper]

/-- Detaching children leaves all nodes there. -/
@[simp]
theorem size_takeChildren (parent : Slot) (chosen : Slot → Bool) :
    (store.takeChildren parent chosen).1.size = store.size := by
  rw [takeChildren, size_foldl_setParent, size_update]

/-- The new children take the place of those before. -/
theorem node?_setChildren {parent : Slot} {children : List Slot} (apart : parent ∉ children)
    (slot : Slot) :
    (store.setChildren parent children).node? slot =
      if slot = parent then (store.node? slot).map ({ · with children })
      else if slot ∈ children then (store.node? slot).map ({ · with parent := some parent })
      else store.node? slot := by
  rw [setChildren, node?_update, node?_foldl_setParent]
  by_cases upper : slot = parent
  · subst upper
    rw [if_pos rfl, if_neg apart, if_pos rfl]
  · rw [if_neg (Ne.symm upper), if_neg upper]

/-- Setting the children of a node makes no new node. -/
@[simp]
theorem size_setChildren (parent : Slot) (children : List Slot) :
    (store.setChildren parent children).size = store.size := by
  rw [setChildren, size_update, size_foldl_setParent]

/-- Replacing a child makes no new node. -/
@[simp]
theorem size_replaceChild (parent old new : Slot) :
    (store.replaceChild parent old new).1.size = store.size := by
  unfold replaceChild
  split <;> simp

/-! ## The root -/

/-- Changing a node leaves the root where it is. -/
@[simp]
theorem root_update (slot : Slot) (change : Node α → Node α) :
    (store.update slot change).root = store.root :=
  rfl

/-- Naming other parents leaves the root where it is. -/
@[simp]
theorem root_foldl_setParent (parent : Option Slot) (slots : List Slot) :
    (slots.foldl (fun result child => result.setParent parent child) store).root = store.root := by
  induction slots generalizing store with
  | nil => rfl
  | cons first rest later => exact later (store.setParent parent first)

/-- A node added below another does not become the root. -/
@[simp]
theorem root_add_below (label : α) (parent : Slot) :
    (store.add label (some parent)).root = store.root :=
  rfl

/-- Making a node a child of another leaves the root where it is. -/
@[simp]
theorem root_adopt (parent child : Slot) : (store.adopt parent child).root = store.root :=
  rfl

/-- A node added without links does not become the root. -/
@[simp]
theorem root_addDetached (label : α) : (store.addDetached label).root = store.root :=
  rfl

/-- Adding nodes one by one leaves the root where it is. -/
@[simp]
theorem root_addEach (labels : List α) : (store.addEach labels).root = store.root := by
  induction labels generalizing store with
  | nil => rfl
  | cons label rest later => exact later (store.addDetached label)

/-- Linking nodes one by one leaves the root where it is. -/
@[simp]
theorem root_adoptEach (pairs : List (Slot × Slot)) :
    (store.adoptEach pairs).root = store.root := by
  induction pairs generalizing store with
  | nil => rfl
  | cons pair rest later => exact later (store.adopt pair.1 pair.2)

/-- Replacing a child leaves the root where it is. -/
@[simp]
theorem root_replaceChild (parent old new : Slot) :
    (store.replaceChild parent old new).1.root = store.root := by
  unfold replaceChild
  split <;> rfl

/-- Detaching children leaves the root where it is. -/
@[simp]
theorem root_takeChildren (parent : Slot) (chosen : Slot → Bool) :
    (store.takeChildren parent chosen).1.root = store.root := by
  rw [takeChildren, root_foldl_setParent, root_update]

/-- Setting the children of a node leaves the root where it is. -/
@[simp]
theorem root_setChildren (parent : Slot) (children : List Slot) :
    (store.setChildren parent children).root = store.root := by
  rw [setChildren, root_update, root_foldl_setParent]

end Laminar.NodeStore
