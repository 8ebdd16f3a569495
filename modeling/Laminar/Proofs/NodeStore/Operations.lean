import Laminar.Proofs.NodeStore.WellLinked

/-!
# Sequences of operations

The operations on a store as a type (`Operation`), each with the nodes that it can be used on
(`Fits`). An operation that fits keeps a store well linked (`WellLinked.perform`): it gives one node
other children, or adds a node without links, or does the one after the other. So the links agree
after every sequence of operations from the empty store, and no operation changes a label
(`run_keeps_links`).
-/

namespace Laminar.NodeStore

open scoped List

variable {α : Type} {store after : NodeStore α} {parent child slot : Slot} {children : List Slot}

/-! ## Operations on links -/

/-- A list with one of its slots replaced has the new slot and, beside it, all others. -/
theorem replaceFirst_perm {old : Slot} (new : Slot) {slots : List Slot} (listed : old ∈ slots) :
    replaceFirst old new slots ~ new :: slots.erase old := by
  obtain ⟨left, right, rfl, first⟩ := List.eq_append_cons_of_mem listed
  rw [replaceFirst_append first, List.erase_append_right _ first, List.erase_cons_head]
  exact List.perm_middle

section Links

variable (linked : store.WellLinked)

include linked

/-- A node that names no parent is no child. -/
theorem IsLoose.not_mem_children (loose : store.IsLoose parent child) (owner : Slot) :
    child ∉ store.children owner := by
  rw [linked.mem_children_iff, loose.free]
  exact Option.some_ne_none owner ∘ Eq.symm

/-- An adopted node is one more child. -/
theorem relinked_adopt (loose : store.IsLoose parent child) :
    Relinked store (store.adopt parent child) parent (store.children parent ++ [child]) := by
  have view := node?_adopt store loose.other.symm
  have new := loose.not_mem_children linked parent
  constructor
  case size => exact size_adopt ..
  case upper =>
    rw [view, if_neg loose.other.symm, if_pos rfl]
    cases here : store.node? parent with
    | none => rfl
    | some node => rw [children_of_node? here]; rfl
  case joined =>
    intro slot listed outside
    have same : slot = child := by simpa [outside] using listed
    rw [view, if_pos same]
  case left => exact fun slot before gone => absurd (List.mem_append_left _ before) gone
  case others =>
    intro slot other same
    have different : slot ≠ child := by
      rintro rfl
      exact new (same.mp (List.mem_append_right _ (List.mem_singleton_self slot)))
    rw [view, if_neg different, if_neg other]

/-- A node that replaces a child is one of the children then, and the replaced one is not. -/
theorem mem_replaceFirst_iff {old new : Slot} (listed : old ∈ store.children parent) :
    slot ∈ replaceFirst old new (store.children parent) ↔
      slot = new ∨ slot ≠ old ∧ slot ∈ store.children parent := by
  rw [(replaceFirst_perm new listed).mem_iff, List.mem_cons,
    (linked.nodup_children parent).mem_erase_iff]

/-- A node that replaces a child comes to the children, and the replaced one leaves them. -/
theorem relinked_replaceChild {old new : Slot} (listed : old ∈ store.children parent)
    (loose : store.IsLoose parent new) :
    Relinked store (store.replaceChild parent old new).1 parent
      (replaceFirst old new (store.children parent)) := by
  have member : ∀ slot, slot ∈ replaceFirst old new (store.children parent) ↔
      slot = new ∨ slot ≠ old ∧ slot ∈ store.children parent :=
    fun slot => mem_replaceFirst_iff linked listed
  have fresh := loose.not_mem_children linked parent
  have other : old ≠ parent := by
    rintro rfl
    exact linked.not_mem_children_self old listed
  have different : old ≠ new := by
    rintro rfl
    exact fresh listed
  have view := node?_replaceChild store listed loose.other other different
  constructor
  case size => exact size_replaceChild ..
  case upper =>
    rw [view, if_neg other.symm, if_neg loose.other.symm, if_pos rfl]
    cases here : store.node? parent with
    | none => rfl
    | some node => rw [children_of_node? here]; rfl
  case joined =>
    intro slot inside outside
    have same : slot = new := by simpa [member, outside] using inside
    rw [view, same, if_neg different.symm, if_pos rfl]
  case left =>
    intro slot before gone
    have same : slot = old := by
      by_contra still
      exact gone ((member slot).mpr (.inr ⟨still, before⟩))
    rw [view, if_pos same]
  case others =>
    intro slot lower same
    have former : slot ≠ old := by
      rintro rfl
      simpa [different] using (member slot).mp (same.mpr listed)
    have newcomer : slot ≠ new := by
      rintro rfl
      exact fresh (same.mp ((member slot).mpr (.inl rfl)))
    rw [view, if_neg former, if_neg newcomer, if_neg lower]

/-- The children that are taken are no longer among the children. -/
theorem relinked_takeChildren (chosen : Slot → Bool) :
    Relinked store (store.takeChildren parent chosen).1 parent
      ((store.children parent).filter fun child => !chosen child) := by
  have view := @node?_takeChildren _ store parent chosen (linked.not_mem_children_self parent)
  constructor
  case size => exact size_takeChildren ..
  case upper => rw [view, if_pos rfl]
  case joined => exact fun slot listed outside => absurd (List.mem_of_mem_filter listed) outside
  case left =>
    intro slot before gone
    have lower : slot ≠ parent := by
      rintro rfl
      exact linked.not_mem_children_self slot before
    have taken : slot ∈ (store.children parent).filter chosen := by
      simpa [List.mem_filter, before] using gone
    rw [view, if_neg lower, if_pos taken]
  case others =>
    intro slot lower same
    have untaken : slot ∉ (store.children parent).filter chosen := by
      rw [List.mem_filter] at same ⊢
      rintro ⟨before, taken⟩
      simp [before, taken] at same
    rw [view, if_neg lower, if_neg untaken]

/-- Children that are set take the place of those before, which are among them. -/
theorem relinked_setChildren (kept : store.children parent ⊆ children)
    (fit : ∀ child ∈ children, child ∉ store.children parent → store.IsLoose parent child) :
    Relinked store (store.setChildren parent children) parent children := by
  have apart : parent ∉ children := by
    intro itself
    exact (fit parent itself (linked.not_mem_children_self parent)).other rfl
  have view := node?_setChildren store apart
  constructor
  case size => exact size_setChildren ..
  case upper => rw [view, if_pos rfl]
  case joined =>
    intro slot listed outside
    rw [view, if_neg (fit slot listed outside).other, if_pos listed]
  case left => exact fun slot before gone => absurd (kept before) gone
  case others =>
    intro slot lower same
    rw [view, if_neg lower]
    by_cases listed : slot ∈ children
    · have named := (linked.mem_children_iff parent slot).mp (same.mp listed)
      rw [if_pos listed, map_parent_of_parent? named]
    · rw [if_neg listed]

/-- A store stays well linked when a node that is loose is adopted. -/
theorem WellLinked.adopt (present : parent < store.size) (loose : store.IsLoose parent child) :
    (store.adopt parent child).WellLinked := by
  refine linked.relink (relinked_adopt linked loose) (fun slot listed outside => ?_) present ?_
  · have same : slot = child := by simpa [outside] using listed
    exact same ▸ loose
  · rw [← List.concat_eq_append]
    exact (linked.nodup_children parent).concat (loose.not_mem_children linked parent)

/-- A store stays well linked when a node that is loose replaces a child, if there is such a
child. -/
theorem WellLinked.replaceChild (present : parent < store.size) (old : Slot) {new : Slot}
    (loose : store.IsLoose parent new) : (store.replaceChild parent old new).1.WellLinked := by
  by_cases listed : old ∈ store.children parent
  · refine linked.relink (relinked_replaceChild linked listed loose)
      (fun slot inside outside => ?_) present ?_
    · have same : slot = new := by
        simpa [outside] using (mem_replaceFirst_iff linked listed).mp inside
      exact same ▸ loose
    · have fresh := loose.not_mem_children linked parent
      rw [(replaceFirst_perm new listed).nodup_iff, List.nodup_cons]
      exact ⟨fun again => fresh (List.mem_of_mem_erase again),
        (linked.nodup_children parent).erase old⟩
  · rw [NodeStore.replaceChild, if_neg listed]
    exact linked

/-- A store stays well linked when children are taken. -/
theorem WellLinked.takeChildren (present : parent < store.size) (chosen : Slot → Bool) :
    (store.takeChildren parent chosen).1.WellLinked := by
  refine linked.relink (relinked_takeChildren linked chosen) (fun slot listed outside => ?_) present
    ((linked.nodup_children parent).filter _)
  exact absurd (List.mem_of_mem_filter listed) outside

/-- A store stays well linked when children that are loose are added to those before, in any
order. -/
theorem WellLinked.setChildren (present : parent < store.size) (distinct : children.Nodup)
    (kept : store.children parent ⊆ children)
    (fit : ∀ child ∈ children, child ∉ store.children parent → store.IsLoose parent child) :
    (store.setChildren parent children).WellLinked :=
  linked.relink (relinked_setChildren linked kept fit) fit present distinct

/-- A store stays well linked when a node without links is added. -/
theorem WellLinked.addDetached (label : α) : (store.addDetached label).WellLinked :=
  linked.added (node?_addDetached store label) (size_addDetached store label)

/-- A new node can be put below every other one. -/
theorem isLoose_addDetached (label : α) (present : parent < store.size) :
    (store.addDetached label).IsLoose parent store.nextSlot := by
  have view := node?_addDetached store label
  have between := interposed_added view (size_addDetached store label)
  constructor
  case present => rw [size_addDetached]; exact Nat.lt_succ_self _
  case free => exact between.parent
  case other => exact (Nat.ne_of_lt present).symm
  case apart => simp [nextSlot, between.new_isAbove_iff linked.grounded]

/-- A store stays well linked when a node is added below one that there is, or as a new root. -/
theorem WellLinked.add (label : α) {parent : Option Slot}
    (present : ∀ slot ∈ parent, slot < store.size) : (store.add label parent).WellLinked := by
  cases parent with
  | none => exact linked.added (node?_addDetached store label) (size_add store label none)
  | some parent =>
    have room : parent < (store.addDetached label).size := by
      rw [size_addDetached]
      exact Nat.lt_succ_of_lt (present parent rfl)
    have loose := isLoose_addDetached linked label (present parent rfl)
    exact (linked.addDetached label).adopt room loose

end Links

/-! ## Labels -/

/-- A node with other links has the same label. -/
theorem map_label_ite {moves : Prop} [Decidable moves] (node? : Option (Node α))
    (change : Node α → Node α) (same : ∀ node, (change node).label = node.label) :
    (if moves then node?.map change else node?).map Node.label = node?.map Node.label := by
  split
  · rw [Option.map_map]
    exact Option.map_congr fun node _ => same node
  · rfl

/-- Naming another parent changes no label. -/
theorem label?_setParent (parent : Option Slot) (child slot : Slot) :
    (store.setParent parent child).label? slot = store.label? slot := by
  rw [label?, node?_setParent]
  exact map_label_ite _ _ fun _ => rfl

/-- A change of the children of a node changes no label. -/
theorem label?_update_children (change : List Slot → List Slot) (owner slot : Slot) :
    (store.update owner fun node => { node with children := change node.children }).label? slot =
      store.label? slot := by
  rw [label?, node?_update]
  exact map_label_ite _ _ fun _ => rfl

/-- Making a node a child of another changes no label. -/
theorem label?_adopt (parent child slot : Slot) :
    (store.adopt parent child).label? slot = store.label? slot := by
  rw [adopt, label?_setParent]
  exact label?_update_children (· ++ [child]) parent slot

/-- Replacing a child changes no label. -/
theorem label?_replaceChild (parent old new slot : Slot) :
    (store.replaceChild parent old new).1.label? slot = store.label? slot := by
  unfold replaceChild
  split
  · rw [label?_setParent, label?_setParent]
    exact label?_update_children (replaceFirst old new) parent slot
  · rfl

/-- Detaching children changes no label. -/
theorem label?_takeChildren (parent : Slot) (chosen : Slot → Bool) (slot : Slot) :
    (store.takeChildren parent chosen).1.label? slot = store.label? slot := by
  let kept := ((store.children parent).partition chosen).2
  refine Eq.trans ?_ (label?_update_children (fun _ => kept) parent slot)
  rw [takeChildren, label?, node?_foldl_setParent]
  exact map_label_ite _ _ fun _ => rfl

/-- A further node changes no label of an old one. -/
theorem label?_addDetached (label : α) (old : slot < store.size) :
    (store.addDetached label).label? slot = store.label? slot := by
  rw [label?, node?_addDetached, if_neg (Nat.ne_of_lt old), label?]

/-! ## Operations -/

/-- An operation on a store. -/
inductive Operation (α : Type)
  /-- Adds a node below another, or as the new root. -/
  | add (label : α) (parent : Option Slot)
  /-- Adds a node without links. -/
  | addDetached (label : α)
  /-- Makes a node the last child of another. -/
  | adopt (parent child : Slot)
  /-- Puts a node where another is among the children of a third. -/
  | replaceChild (parent old new : Slot)
  /-- Detaches the children that are chosen. -/
  | takeChildren (parent : Slot) (chosen : Slot → Bool)
  /-- Sets all children of a node. -/
  | setChildren (parent : Slot) (children : List Slot)

/-- The store after an operation. -/
def perform (store : NodeStore α) : Operation α → NodeStore α
  | .add label parent => store.add label parent
  | .addDetached label => store.addDetached label
  | .adopt parent child => store.adopt parent child
  | .replaceChild parent old new => (store.replaceChild parent old new).1
  | .takeChildren parent chosen => (store.takeChildren parent chosen).1
  | .setChildren parent children => store.setChildren parent children

/-- An operation names nodes that there are, and puts a node below another only if it is loose, or
if it has been there before. The node that is to be replaced need not be a child. -/
def Fits (store : NodeStore α) : Operation α → Prop
  | .add _ parent => ∀ slot ∈ parent, slot < store.size
  | .addDetached _ => True
  | .adopt parent child => parent < store.size ∧ store.IsLoose parent child
  | .replaceChild parent old new =>
    parent < store.size ∧ old < store.size ∧ store.IsLoose parent new
  | .takeChildren parent _ => parent < store.size
  | .setChildren parent children =>
    parent < store.size ∧ children.Nodup ∧ store.children parent ⊆ children ∧
      ∀ child ∈ children, child ∉ store.children parent → store.IsLoose parent child

/-- Whether a node is above another can be computed. -/
instance (store : NodeStore α) (outer inner : Slot) : Decidable (store.IsAbove outer inner) :=
  inferInstanceAs (Decidable (∃ above ∈ store.ancestors? inner, outer ∈ above))

/-- Whether a node is loose can be computed. -/
instance (store : NodeStore α) (parent child : Slot) : Decidable (store.IsLoose parent child) :=
  decidable_of_iff (child < store.size ∧ store.parent? child = none ∧ child ≠ parent ∧
      ¬ store.IsAbove child parent)
    ⟨fun ⟨present, free, other, apart⟩ => ⟨present, free, other, apart⟩,
      fun loose => ⟨loose.present, loose.free, loose.other, loose.apart⟩⟩

/-- Whether an operation fits can be computed. -/
instance (store : NodeStore α) (operation : Operation α) : Decidable (store.Fits operation) :=
  match operation with
  | .add _ parent => inferInstanceAs (Decidable (∀ slot ∈ parent, slot < store.size))
  | .addDetached _ => inferInstanceAs (Decidable True)
  | .adopt parent child =>
    inferInstanceAs (Decidable (parent < store.size ∧ store.IsLoose parent child))
  | .replaceChild parent old new =>
    inferInstanceAs (Decidable
      (parent < store.size ∧ old < store.size ∧ store.IsLoose parent new))
  | .takeChildren parent _ => inferInstanceAs (Decidable (parent < store.size))
  | .setChildren parent children =>
    inferInstanceAs (Decidable (parent < store.size ∧ children.Nodup ∧
      store.children parent ⊆ children ∧
        ∀ child ∈ children, child ∉ store.children parent → store.IsLoose parent child))

/-- Some operations lead from a store to another, and each fits the store that it finds. -/
inductive Runs : NodeStore α → List (Operation α) → NodeStore α → Prop
  /-- Without operations nothing happens. -/
  | done {store : NodeStore α} : Runs store [] store
  /-- A first operation, and what the others do after it. -/
  | next {store after : NodeStore α} {operation : Operation α} {rest : List (Operation α)}
      (fits : store.Fits operation) (later : Runs (store.perform operation) rest after) :
      Runs store (operation :: rest) after

/-- An operation that fits keeps a store well linked. -/
theorem WellLinked.perform (linked : store.WellLinked) {operation : Operation α}
    (fits : store.Fits operation) : (store.perform operation).WellLinked := by
  cases operation with
  | add label parent => exact linked.add label fits
  | addDetached label => exact linked.addDetached label
  | adopt parent child => exact linked.adopt fits.1 fits.2
  | replaceChild parent old new => exact linked.replaceChild fits.1 old fits.2.2
  | takeChildren parent chosen => exact linked.takeChildren fits chosen
  | setChildren parent children =>
    obtain ⟨present, distinct, kept, loose⟩ := fits
    exact linked.setChildren present distinct kept loose

/-- An operation removes no node. -/
theorem size_le_perform (operation : Operation α) :
    store.size ≤ (store.perform operation).size := by
  cases operation <;> simp [perform]

/-- An operation changes no label. -/
theorem label?_perform (operation : Operation α) (old : slot < store.size) :
    (store.perform operation).label? slot = store.label? slot := by
  cases operation with
  | add label parent =>
    cases parent with
    | none => exact label?_addDetached label old
    | some parent =>
      exact (label?_adopt parent store.nextSlot slot).trans (label?_addDetached label old)
  | addDetached label => exact label?_addDetached label old
  | adopt parent child => exact label?_adopt parent child slot
  | replaceChild parent former new => exact label?_replaceChild parent former new slot
  | takeChildren parent chosen => exact label?_takeChildren parent chosen slot
  | setChildren parent children => exact label?_setChildren parent children slot

namespace Runs

variable {operations : List (Operation α)}

/-- A store stays well linked along any run of operations that fit. -/
theorem wellLinked (runs : Runs store operations after) (linked : store.WellLinked) :
    after.WellLinked := by
  induction runs with
  | done => exact linked
  | next fits _ later => exact later (linked.perform fits)

/-- No operation takes nodes away. -/
theorem size_le (runs : Runs store operations after) : store.size ≤ after.size := by
  induction runs with
  | done => exact Nat.le_refl _
  | next _ _ later => exact Nat.le_trans (size_le_perform _) later

/-- The nodes keep their labels. -/
theorem label?_eq (runs : Runs store operations after) (old : slot < store.size) :
    after.label? slot = store.label? slot := by
  induction runs with
  | done => rfl
  | @next store _ operation _ _ _ later =>
    rw [later (Nat.lt_of_lt_of_le old (size_le_perform operation)), label?_perform operation old]

end Runs

/-- From the empty store, every sequence of operations that fit leads to a store that is well
linked: a node is once among the children of its parent and not among those of another, and the
parents form no cycle. What happens later removes no node and leaves every label as it is. A child
is replaced unless there is none to replace, and then nothing changes. -/
theorem run_keeps_links {operations : List (Operation α)} (runs : Runs empty operations store) :
    store.WellLinked ∧
    (∀ slot,
      ¬ Relation.TransGen (fun lower upper => store.parent? lower = some upper) slot slot) ∧
    (∀ more after, Runs store more after → store.size ≤ after.size ∧
      ∀ slot < store.size, ∃ label, store.label? slot = some label ∧
        after.label? slot = some label) ∧
    ∀ parent old new,
      ((store.replaceChild parent old new).2 = false ↔ old ∉ store.children parent) ∧
      ((store.replaceChild parent old new).2 = false →
        (store.replaceChild parent old new).1 = store) := by
  have linked := runs.wellLinked wellLinked_empty
  refine ⟨linked, linked.grounded.acyclic, fun more after later => ⟨later.size_le, ?_⟩, ?_⟩
  · intro slot present
    obtain ⟨node, here⟩ := exists_node?_of_lt_size present
    have label : store.label? slot = some node.label := by rw [label?, here]; rfl
    exact ⟨node.label, label, (later.label?_eq present).trans label⟩
  · intro parent old new
    refine ⟨replaceChild_eq_false_iff .., fun unchanged => ?_⟩
    rw [replaceChild, if_neg ((replaceChild_eq_false_iff ..).mp unchanged)]

/-- Operations of all kinds. A child is replaced below one node, and in vain below another; the
branch is taken from the root and set beside the node that it has lost. -/
def moves : List (Operation Nat) :=
  [.add 10 none, .add 11 (some 0), .addDetached 12, .adopt 1 2, .addDetached 13,
    .replaceChild 1 2 3, .replaceChild 0 3 2, .takeChildren 0 (· == 1), .setChildren 0 [2, 1]]

/-- The store to which they lead. -/
def moved : NodeStore Nat :=
  ⟨#[⟨10, none, [2, 1]⟩, ⟨11, some 0, [3]⟩, ⟨12, some 0, []⟩, ⟨13, some 1, []⟩], some 0⟩

/-- The moves fit one after the other. -/
theorem run_keeps_links_moved :
    Runs empty moves moved ∧ moved.WellLinked ∧
      (∀ slot,
        ¬ Relation.TransGen (fun lower upper => moved.parent? lower = some upper) slot slot) ∧
      (moved.replaceChild 0 3 1).2 = false ∧ (moved.replaceChild 0 3 1).1 = moved ∧
      (moved.replaceChild 0 2 3).2 = true := by
  have runs : Runs empty moves moved :=
    .next (by decide) <| .next (by decide) <| .next (by decide) <| .next (by decide) <|
      .next (by decide) <| .next (by decide) <| .next (by decide) <| .next (by decide) <|
      .next (by decide) .done
  obtain ⟨linked, acyclic, -, replaces⟩ := run_keeps_links runs
  have absent : (moved.replaceChild 0 3 1).2 = false := (replaces 0 3 1).1.mpr (by decide)
  refine ⟨runs, linked, acyclic, absent, (replaces 0 3 1).2 absent, ?_⟩
  have listed : ¬ (moved.replaceChild 0 2 3).2 = false := by
    rw [(replaces 0 2 3).1]
    decide
  exact (Bool.not_eq_false _).mp listed

end Laminar.NodeStore
