import Mathlib.Data.List.Nodup
import Mathlib.Logic.Relation
import Laminar.Proofs.Forest.Linked

/-!
# Linked forests are trees

Whatever a relation answers, the links of a forest that insertions have made form one tree: the top
is its root, every item is the child of one node, which is the parent that the item's own node
names, and all nodes are reached from the top. This is read off the grove that the linked forest
shows, and every insertion leads from one that shows a grove to the next
(`Represents.agrees_insert`).
-/

namespace Laminar.LinkedForest

open Forest (Planted)
open NodeStore (parent?)

variable {σ α : Type} {store : LinkedForest α} {owner : Slot} {trees : Grove (Planted α)}

/-- The node in a slot has another for a child. -/
def IsChild (store : LinkedForest α) (owner child : Slot) : Prop :=
  child ∈ store.children owner

/-! ## The links of trees -/

namespace Shows

variable (shows : Shows store owner trees)

include shows

/-- The nodes of the trees name the owner as their parent. -/
theorem parent?_of_mem_tops : ∀ slot ∈ tops trees, parent? store slot = some owner := by
  induction trees with
  | nil => simp [tops, Grove.roots]
  | node planted below beside _ later =>
    obtain ⟨here, -, right⟩ := shows
    rw [tops_node, List.forall_mem_cons]
    refine ⟨?_, later right⟩
    rw [parent?, here]
    rfl

/-- A child of a node among the trees names it as its parent, and comes once among its children. -/
theorem of_mem_children (distinct : (slots trees).Nodup) :
    ∀ slot ∈ slots trees, (store.children slot).Nodup ∧
      ∀ child ∈ store.children slot, child ∈ slots trees ∧ parent? store child = some slot := by
  induction trees generalizing owner with
  | nil => simp [slots, Grove.labels]
  | node planted below beside inner later =>
    obtain ⟨here, lower, right⟩ := shows
    rw [slots_node, List.nodup_cons, List.nodup_append] at distinct
    obtain ⟨-, below_distinct, beside_distinct, -⟩ := distinct
    have children : store.children planted.slot = tops below := NodeStore.children_of_node? here
    rw [slots_node, List.forall_mem_cons, List.forall_mem_append]
    refine ⟨⟨?_, fun child listed => ?_⟩, fun slot present => ?_, fun slot present => ?_⟩
    · rw [children]
      exact below_distinct.sublist (tops_sublist_slots below)
    · rw [children] at listed
      refine ⟨?_, lower.parent?_of_mem_tops child listed⟩
      simp [(tops_sublist_slots below).subset listed]
    · obtain ⟨once, named⟩ := inner lower below_distinct slot present
      exact ⟨once, fun child listed => ⟨by simp [(named child listed).1], (named child listed).2⟩⟩
    · obtain ⟨once, named⟩ := later right beside_distinct slot present
      exact ⟨once, fun child listed => ⟨by simp [(named child listed).1], (named child listed).2⟩⟩

/-- A node of the trees is a child of the parent that it names. -/
theorem exists_owner (linked : ∀ slot ∈ tops trees, slot ∈ store.children owner) :
    ∀ slot ∈ slots trees, ∃ above,
      parent? store slot = some above ∧ slot ∈ store.children above := by
  induction trees generalizing owner with
  | nil => simp [slots, Grove.labels]
  | node planted below beside inner later =>
    obtain ⟨here, lower, right⟩ := shows
    have children : store.children planted.slot = tops below := NodeStore.children_of_node? here
    rw [tops_node, List.forall_mem_cons] at linked
    rw [slots_node, List.forall_mem_cons, List.forall_mem_append]
    refine ⟨⟨owner, ?_, linked.1⟩, inner lower ?_, later right linked.2⟩
    · rw [parent?, here]
      rfl
    · rw [children]
      exact fun slot top => top

/-- A node of the trees has the links to the trees just below it. -/
theorem families_children :
    trees.Families fun planted children =>
      store.children planted.slot = children.map Planted.slot := by
  induction trees generalizing owner with
  | nil => trivial
  | node planted below beside inner later =>
    obtain ⟨here, lower, right⟩ := shows
    exact ⟨NodeStore.children_of_node? here, inner lower, later right⟩

/-- The nodes of the trees are reached from the owner. -/
theorem reached (linked : ∀ slot ∈ tops trees, slot ∈ store.children owner) :
    ∀ slot ∈ slots trees, Relation.ReflTransGen (IsChild store) owner slot := by
  induction trees generalizing owner with
  | nil => simp [slots, Grove.labels]
  | node planted below beside inner later =>
    obtain ⟨here, lower, right⟩ := shows
    have children : store.children planted.slot = tops below := NodeStore.children_of_node? here
    rw [tops_node, List.forall_mem_cons] at linked
    rw [slots_node, List.forall_mem_cons, List.forall_mem_append]
    have first : Relation.ReflTransGen (IsChild store) owner planted.slot := .single linked.1
    refine ⟨first, fun slot present => ?_, later right linked.2⟩
    refine first.trans (inner lower ?_ slot present)
    rw [children]
    exact fun slot top => top

end Shows

/-! ## The whole tree -/

/-- The links of a linked forest of some items form a tree. -/
structure IsTree (store : LinkedForest α) (items : List α) : Prop where
  /-- The top is the root. -/
  root : store.root = some top
  /-- The top has no parent. -/
  parent : parent? store top = none
  /-- The top holds no item, and the slots after it hold the items in their order. -/
  labels : store.nodes.toList.map Node.label = none :: items.map some
  /-- Any other slot comes once in the children of one node and not at all in those of another, and
  its parent is that node. -/
  owned : ∀ slot, slot ≠ top → slot < store.size → ∃ owner,
    parent? store slot = some owner ∧ (store.children owner).count slot = 1 ∧
      ∀ other, other ≠ owner → slot ∉ store.children other
  /-- No other slots come among children. -/
  listed : ∀ owner, ∀ slot ∈ store.children owner, slot ≠ top ∧ slot < store.size
  /-- Every slot is reached from the top. -/
  reached : ∀ slot < store.size, Relation.ReflTransGen (IsChild store) top slot

namespace Represents

variable {forest : Forest α} {items : List α} (represents : Represents store forest items)

include represents

/-- Every slot is that of the top or of an item. -/
theorem mem_slots_iff (slot : Slot) :
    slot ∈ slots forest.trees ↔ slot ≠ top ∧ slot < store.size := by
  have positive : slot ≠ top ↔ 0 < slot := Nat.pos_iff_ne_zero.symm
  rw [represents.slots_perm.mem_iff, List.mem_range'_1, represents.size, positive,
    Nat.add_comm 1 items.length]
  exact Iff.rfl

/-- The children of the top are the tops of the trees. -/
theorem children_top : store.children top = tops forest.trees :=
  NodeStore.children_of_node? represents.links

/-- The children of a slot are the trees, those just below a place, or none. -/
theorem children_cases (owner : Slot) :
    (owner = top ∧ store.children owner = tops forest.trees) ∨
      (∃ place ∈ forest.trees.places, place.label.slot = owner ∧
        store.children owner = place.children.map Planted.slot) ∨
      store.children owner = [] := by
  by_cases here : owner = top
  · subst here
    exact .inl ⟨rfl, represents.children_top⟩
  · by_cases present : owner < store.size
    · obtain ⟨planted, listed, rfl⟩ :=
        List.mem_map.mp ((represents.mem_slots_iff owner).mpr ⟨here, present⟩)
      obtain ⟨place, placed, rfl⟩ := Grove.exists_place_of_mem_labels [] listed
      have children := (Grove.families_iff _ _).mp represents.shows.families_children place placed
      exact .inr (.inl ⟨place, placed, rfl, children⟩)
    · have absent : store.node? owner = none := Array.getElem?_eq_none (Nat.not_lt.mp present)
      refine .inr (.inr ?_)
      rw [NodeStore.children, absent]

/-- A child of any node has a slot after that of the top, comes once among the children, and names
the node as its parent. -/
theorem of_mem_children (owner : Slot) :
    (store.children owner).Nodup ∧
      ∀ child ∈ store.children owner, child ∈ slots forest.trees ∧
        parent? store child = some owner := by
  have distinct := (List.nodup_cons.mp represents.hangs.distinct).2
  by_cases here : owner = top
  · subst here
    rw [represents.children_top]
    refine ⟨distinct.sublist (tops_sublist_slots _), fun child listed => ?_⟩
    exact ⟨(tops_sublist_slots _).subset listed, represents.shows.parent?_of_mem_tops child listed⟩
  · by_cases present : owner < store.size
    · have inside := (represents.mem_slots_iff owner).mpr ⟨here, present⟩
      exact represents.shows.of_mem_children distinct owner inside
    · have absent : store.node? owner = none := Array.getElem?_eq_none (Nat.not_lt.mp present)
      have empty : store.children owner = [] := by rw [NodeStore.children, absent]
      rw [empty]
      exact ⟨List.nodup_nil, fun child listed => absurd listed List.not_mem_nil⟩

/-- The slots hold the items in the order of their turns. -/
theorem label_eq (turn : Nat) :
    (store.node? (turn + 1)).map Node.label = items[turn]?.map some := by
  cases found : items[turn]? with
  | none =>
    have last := List.getElem?_eq_none_iff.mp found
    have absent : store.node? (turn + 1) = none := by
      apply Array.getElem?_eq_none
      show store.size ≤ turn + 1
      rw [represents.size]
      omega
    rw [absent]
    rfl
  | some item =>
    have present := represents.planted.mem_iff.mpr (Forest.mem_planting found)
    have holds : item? store (turn + 1) = some item := represents.shows.item?_eq present
    obtain ⟨node, here, label⟩ := Option.bind_eq_some_iff.mp holds
    rw [here, Option.map_some, label, Option.map_some]

/-- A linked forest that shows a forest is a tree. -/
theorem isTree : IsTree store items := by
  have linked : ∀ slot ∈ tops forest.trees, slot ∈ store.children top := by
    rw [represents.children_top]
    exact fun slot listed => listed
  constructor
  case root => exact represents.root
  case parent =>
    rw [parent?, represents.links]
    rfl
  case labels =>
    apply List.ext_getElem?
    intro slot
    rw [List.getElem?_map, Array.getElem?_toList]
    cases slot with
    | zero => exact congrArg (Option.map Node.label) represents.links
    | succ turn =>
      rw [List.getElem?_cons_succ, List.getElem?_map]
      exact represents.label_eq turn
  case owned =>
    intro slot other present
    have inside := (represents.mem_slots_iff slot).mpr ⟨other, present⟩
    obtain ⟨owner, named, listed⟩ := represents.shows.exists_owner linked slot inside
    refine ⟨owner, named, List.count_eq_one_of_mem (represents.of_mem_children owner).1 listed, ?_⟩
    intro another different elsewhere
    have again := ((represents.of_mem_children another).2 slot elsewhere).2
    exact different (Option.some.inj (again.symm.trans named))
  case listed =>
    intro owner slot listed
    exact (represents.mem_slots_iff slot).mp ((represents.of_mem_children owner).2 slot listed).1
  case reached =>
    intro slot present
    by_cases here : slot = top
    · rw [here]
    · exact represents.shows.reached linked slot
        ((represents.mem_slots_iff slot).mpr ⟨here, present⟩)

end Represents

/-! ## Insertions one after another -/

/-- The first insertion leads to a linked forest that the others go on with. -/
theorem insertEach_cons {contains : Relation σ α} {item : α} {rest : List α}
    {state middle ended : σ} {attempt : Attempt α} {others : List (Attempt α)}
    (first : insert contains store item state = some (attempt, middle))
    (later : insertEach contains attempt.forest rest middle = some (others, ended)) :
    insertEach contains store (item :: rest) state = some (attempt :: others, ended) := by
  show (insert contains store item state).bind _ = _
  rw [first]
  show (insertEach contains attempt.forest rest middle).bind _ = _
  rw [later]
  rfl

/-- An insertion into a linked forest that shows a forest ends. Either the item is in the next slot
of one that shows a forest with it, or the item has no place and nothing has changed. -/
theorem Represents.exists_insert {forest : Forest α} {items : List α}
    (represents : Represents store forest items) (contains : Relation σ α) (item : α) (state : σ) :
    ∃ attempt ended, insert contains store item state = some (attempt, ended) ∧
      ((attempt.result = .ok store.size ∧
          ∃ grown, Represents attempt.forest grown (items ++ [item])) ∨
        (∃ node, attempt.result = .error ⟨item, some node⟩) ∧ attempt.forest = store) := by
  obtain ⟨attempt, ran, -, ends⟩ := represents.agrees_insert contains item state
  refine ⟨attempt, _, ran, ?_⟩
  cases outcome : ((forest.insert contains item).run state).1.2 with
  | ok grown =>
    rw [outcome] at ends
    exact .inl ⟨ends.1, grown, ends.2⟩
  | error misfit =>
    rw [outcome] at ends
    obtain ⟨node, -, refused, same⟩ := ends
    exact .inr ⟨⟨node, refused⟩, same⟩

/-- The linked forests that insertions lead to from the bare one, and the items that got a place.
The relation may be another one each time or in another state, and a refusal is not the end. -/
inductive Reachable : LinkedForest α → List α → Prop
  /-- Nothing has been inserted. -/
  | bare : Reachable bare []
  /-- One more item has got a place. -/
  | placed {σ : Type} {contains : Relation σ α} {store : LinkedForest α} {items : List α} {item : α}
      {state ended : σ} {attempt : Attempt α} {slot : Slot} (before : Reachable store items)
      (ran : insert contains store item state = some (attempt, ended))
      (result : attempt.result = .ok slot) : Reachable attempt.forest (items ++ [item])
  /-- One more item has been refused. -/
  | refused {σ : Type} {contains : Relation σ α} {store : LinkedForest α} {items : List α}
      {item : α} {state ended : σ} {attempt : Attempt α} {refusal : Refusal α}
      (before : Reachable store items)
      (ran : insert contains store item state = some (attempt, ended))
      (result : attempt.result = .error refusal) : Reachable attempt.forest items

/-- Insertions lead to linked forests that show a forest. -/
theorem Reachable.exists_represents {items : List α} (reachable : Reachable store items) :
    ∃ forest, Represents store forest items := by
  induction reachable with
  | bare => exact ⟨.empty, represents_bare⟩
  | @placed σ contains store items item state ended attempt slot _ ran result shown =>
    obtain ⟨forest, represents⟩ := shown
    obtain ⟨again, _, same, ends⟩ := represents.exists_insert contains item state
    obtain ⟨rfl, -⟩ := Prod.mk.inj (Option.some.inj (same.symm.trans ran))
    rcases ends with ⟨-, grown⟩ | ⟨⟨node, refused⟩, -⟩
    · exact grown
    · rw [result] at refused
      contradiction
  | @refused σ contains store items item state ended attempt refusal _ ran result shown =>
    obtain ⟨forest, represents⟩ := shown
    obtain ⟨again, _, same, ends⟩ := represents.exists_insert contains item state
    obtain ⟨rfl, -⟩ := Prod.mk.inj (Option.some.inj (same.symm.trans ran))
    rcases ends with ⟨placed, -⟩ | ⟨-, unchanged⟩
    · rw [result] at placed
      contradiction
    · rw [unchanged]
      exact ⟨forest, represents⟩

/-- Insertions by one relation, whatever it answers, all end, and lead from one linked forest to the
next. -/
theorem Reachable.exists_insertEach {prior : List α} (reachable : Reachable store prior)
    (contains : Relation σ α) (items : List α) (state : σ) :
    ∃ attempts ended, insertEach contains store items state = some (attempts, ended) ∧
      attempts.length = items.length ∧
      ∀ attempt ∈ attempts,
        ∃ kept, kept.Sublist items ∧ Reachable attempt.forest (prior ++ kept) := by
  induction items generalizing store prior state with
  | nil => exact ⟨[], state, rfl, rfl, fun attempt listed => absurd listed List.not_mem_nil⟩
  | cons item rest later =>
    obtain ⟨forest, represents⟩ := reachable.exists_represents
    obtain ⟨attempt, middle, ran, ends⟩ := represents.exists_insert contains item state
    have first : ∃ kept, kept.Sublist [item] ∧ Reachable attempt.forest (prior ++ kept) := by
      rcases ends with ⟨result, -⟩ | ⟨⟨node, result⟩, -⟩
      · exact ⟨[item], List.Sublist.refl _, .placed reachable ran result⟩
      · refine ⟨[], List.nil_sublist _, ?_⟩
        rw [List.append_nil]
        exact .refused reachable ran result
    obtain ⟨kept, sublist, next⟩ := first
    obtain ⟨others, ended, ranOthers, length, after⟩ := later next middle
    refine ⟨attempt :: others, ended, insertEach_cons ran ranOthers, congrArg (· + 1) length, ?_⟩
    rw [List.forall_mem_cons]
    constructor
    · exact ⟨kept, sublist.trans (List.sublist_append_left [item] rest), next⟩
    · intro other present
      obtain ⟨more, moreSublist, reached⟩ := after other present
      refine ⟨kept ++ more, sublist.append moreSublist, ?_⟩
      rw [← List.append_assoc]
      exact reached

/-- If all items get a place, the last linked forest has them all. -/
theorem Reachable.of_insertEach {prior items : List α} {contains : Relation σ α} {state ended : σ}
    {attempts : List (Attempt α)} (reachable : Reachable store prior)
    (ran : insertEach contains store items state = some (attempts, ended))
    (placed : ∀ attempt ∈ attempts, ∃ slot, attempt.result = .ok slot) :
    Reachable ((attempts.map Attempt.forest).getLastD store) (prior ++ items) := by
  induction items generalizing store prior state attempts with
  | nil =>
    obtain ⟨rfl, rfl⟩ := Prod.mk.inj (Option.some.inj ran)
    rw [List.append_nil]
    exact reachable
  | cons item rest later =>
    obtain ⟨⟨attempt, middle⟩, first, ran⟩ := Option.bind_eq_some_iff.mp ran
    obtain ⟨⟨others, last⟩, ranOthers, same⟩ := Option.bind_eq_some_iff.mp ran
    obtain ⟨rfl, rfl⟩ := Prod.mk.inj (Option.some.inj same)
    obtain ⟨⟨slot, result⟩, placedOthers⟩ := List.forall_mem_cons.mp placed
    have rest_reachable := later (.placed reachable first result) ranOthers placedOthers
    rw [List.append_assoc] at rest_reachable
    rw [List.map_cons, List.getLastD_cons]
    exact rest_reachable

/-- Whatever a relation answers, and even if it answers each time by another state, all links of a
linked forest form a tree. Every insertion into it ends. It puts the item into the next slot of a
tree, or it refuses the item and leaves every node as it was. -/
theorem insert_keeps_tree {items : List α} (reachable : Reachable store items) :
    IsTree store items ∧
      ∀ {σ : Type} (contains : Relation σ α) (item : α) (state : σ), ∃ attempt ended,
        insert contains store item state = some (attempt, ended) ∧
          (attempt.result = .ok store.size ∧ IsTree attempt.forest (items ++ [item]) ∨
            (∃ node, attempt.result = .error ⟨item, some node⟩) ∧ attempt.forest = store) := by
  obtain ⟨forest, represents⟩ := reachable.exists_represents
  refine ⟨represents.isTree, fun contains item state => ?_⟩
  obtain ⟨attempt, ended, ran, ends⟩ := represents.exists_insert contains item state
  refine ⟨attempt, ended, ran, ?_⟩
  rcases ends with ⟨result, grown, shown⟩ | refused
  · exact .inl ⟨result, shown.isTree⟩
  · exact .inr refused

/-- A relation by which one contains two the first time it is asked and never again. -/
def flaky : Relation Bool Nat := fun outer inner => do
  if outer = 1 ∧ inner = 2 then
    let asked ← get
    set true
    return !asked
  else return false

/-- The linked forest with one item. -/
def single : LinkedForest Nat :=
  ⟨#[⟨none, none, [1]⟩, ⟨some 1, some 0, []⟩], some 0⟩

/-- Two comes down to one, which then does not contain it any more, and the tree stays as it is. -/
theorem insert_keeps_tree_flaky :
    Reachable single [1] ∧ IsTree single [1] ∧
      ∃ attempt ended, insert flaky single 2 false = some (attempt, ended) ∧
        attempt.result = .error ⟨2, some 1⟩ ∧ attempt.forest = single := by
  have ran : insert flaky bare 1 false = some (⟨[.newSibling], .ok 1, single⟩, false) :=
    rfl
  have reachable : Reachable single [1] := .placed .bare ran rfl
  have refused : insert flaky single 2 false =
      some (⟨[.descend 1], .error ⟨2, some 1⟩, single⟩, true) :=
    rfl
  obtain ⟨tree, step⟩ := insert_keeps_tree reachable
  obtain ⟨attempt, ended, again, ends⟩ := step flaky 2 false
  obtain ⟨rfl, rfl⟩ := Prod.mk.inj (Option.some.inj (again.symm.trans refused))
  have unchanged := ends.resolve_left (by simp)
  exact ⟨reachable, tree, _, _, refused, rfl, unchanged.2⟩

end Laminar.LinkedForest
