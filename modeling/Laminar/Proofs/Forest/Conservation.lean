import Laminar.Proofs.Forest.Tree
import Laminar.Proofs.NodeStore.Ascent

/-!
# What an insertion leaves as it is

An insertion that succeeds has gone down to a node (`Descends`) and put the item above some nodes
there (`Takes`): above the node itself, above some of its children, or above none. In each case the
new node has come between the nodes that it takes over and their parent. So the old nodes are above
each other as before, whatever the relation has answered (`insert_conserves`).
-/

namespace Laminar.LinkedForest

open Forest (Step)
open NodeStore (parent? Ascends Interposed)

variable {σ α : Type} {contains : Relation σ α} {store : LinkedForest α} {items : List α} {item : α}

/-! ## Ways up in a tree -/

namespace IsTree

variable (tree : IsTree store items)

include tree

/-- A child names the node as its parent. -/
theorem parent?_of_mem_children {owner child : Slot} (listed : child ∈ store.children owner) :
    parent? store child = some owner := by
  obtain ⟨other, present⟩ := tree.listed owner child listed
  obtain ⟨upper, named, -, elsewhere⟩ := tree.owned child other present
  by_cases same : owner = upper
  · rw [same]
    exact named
  · exact absurd listed (elsewhere owner same)

/-- From every node of a tree there is a way up. -/
theorem grounded : store.Grounded := by
  intro slot present
  have start : top < store.size := Nat.lt_of_le_of_lt (Nat.zero_le slot) present
  have reached := tree.reached slot present
  clear present
  induction reached with
  | refl => exact ⟨[], .last start tree.parent⟩
  | tail _ listed later =>
    obtain ⟨above, ascends⟩ := later
    exact ⟨_, .up (tree.parent?_of_mem_children listed) ascends⟩

/-- No node is its own child. -/
theorem not_mem_children_self (slot : Slot) : slot ∉ store.children slot :=
  fun listed => tree.grounded.parent?_ne slot (tree.parent?_of_mem_children listed)

end IsTree

/-! ## Placements -/

section Placements

variable {stop : Slot} (present : stop < store.size)

include present

/-- A new sibling comes below its parent and above no node. -/
theorem interposed_newSibling (item : α) :
    Interposed store (store.add (some item) (some stop)) (some stop) [] := by
  have after := NodeStore.node?_add store (some item) present
  constructor
  case size => exact NodeStore.size_add ..
  case parent =>
    rw [parent?, after, if_pos rfl]
    rfl
  case old => simpa using present
  case before => simp
  case moved => simp
  case others =>
    intro slot new _
    rw [parent?, parent?, after, if_neg new]
    split <;> cases store.node? slot <;> rfl

variable (tree : IsTree store items)

include tree

/-- An item that wraps children of a node comes between them and the node. -/
theorem interposed_wrapChildren {taken : List Slot}
    (within : ∀ child ∈ taken, child ∈ store.children stop) (item : α) :
    Interposed store (wrapChildren store stop taken item) (some stop) taken := by
  obtain ⟨node, found⟩ : ∃ node, store.node? stop = some node :=
    ⟨_, Array.getElem?_eq_getElem present⟩
  have children := NodeStore.children_of_node? found
  have old : ∀ child ∈ store.children stop, child < store.size :=
    fun child listed => (tree.listed stop child listed).2
  have apart := tree.not_mem_children_self stop
  have named : ∀ child ∈ taken, parent? store child = some stop :=
    fun child chosen => tree.parent?_of_mem_children (within child chosen)
  have within_node := within
  rw [children] at old apart within_node
  have after := node?_wrapChildren found within_node old apart item
  constructor
  case size => simp [wrapChildren]
  case parent =>
    rw [parent?, after, if_pos rfl]
    rfl
  case old => simpa using present
  case before =>
    exact fun child chosen => ⟨old child (within_node child chosen), named child chosen⟩
  case moved =>
    intro child chosen
    obtain ⟨inner, here, -⟩ := Option.bind_eq_some_iff.mp (named child chosen)
    have different : child ≠ store.size := Nat.ne_of_lt (old child (within_node child chosen))
    have other : child ≠ stop := by
      rintro rfl
      exact apart (within_node child chosen)
    rw [parent?, after, if_neg different, if_neg other, if_pos chosen, here]
    rfl
  case others =>
    intro slot new left
    rw [parent?, parent?, after, if_neg new, if_neg left]
    split
    · next same => rw [same, found]; rfl
    · rfl

/-- An item that wraps a node comes between the node and its parent. -/
theorem interposed_wrapNode (inner : stop ≠ top) (item : α) :
    Interposed store (wrapNode store stop item) (parent? store stop) [stop] := by
  obtain ⟨owner, named, once, -⟩ := tree.owned stop inner present
  obtain ⟨node, found, linked⟩ := Option.bind_eq_some_iff.mp named
  have listed : stop ∈ store.children owner := List.count_pos_iff.mp (by omega)
  have owner_old : owner < store.size := by
    obtain ⟨above, ascends⟩ := tree.grounded stop present
    cases ascends with
    | last _ ends => exact absurd (ends.symm.trans named) (by simp)
    | up same higher =>
      obtain rfl := Option.some.inj (same.symm.trans named)
      exact higher.lt_size
  obtain ⟨upper, above⟩ : ∃ upper, store.node? owner = some upper :=
    ⟨_, Array.getElem?_eq_getElem owner_old⟩
  have different : stop ≠ owner := by
    rintro rfl
    exact tree.grounded.parent?_ne stop named
  rw [NodeStore.children_of_node? above] at listed
  have after := node?_wrapNode found linked above listed different item
  rw [named]
  constructor
  case size => exact size_wrapNode store stop item
  case parent =>
    rw [parent?, after, if_pos rfl]
    rfl
  case old => simpa using owner_old
  case before => simpa using ⟨present, named⟩
  case moved =>
    intro child chosen
    obtain rfl := List.mem_singleton.mp chosen
    rw [parent?, after, if_neg (Nat.ne_of_lt present), if_pos rfl]
    rfl
  case others =>
    intro slot new other
    rw [List.mem_singleton] at other
    rw [parent?, parent?, after, if_neg new, if_neg other]
    split
    · next same => rw [same, above]; rfl
    · rfl

end Placements

/-! ## Rounds -/

/-- How the last round of a walk places an item at a node: its step, the slots of the nodes that the
item takes over, and what the linked forest becomes. -/
inductive Takes (contains : Relation σ α) (store : LinkedForest α) (item : α) (stop : Slot)
    (ended : σ) : Step → List Slot → LinkedForest α → Prop
  /-- The item takes over the node. -/
  | wrapNode (inner : stop ≠ top) :
      Takes contains store item stop ended .wrapNode [stop] (wrapNode store stop item)
  /-- The item takes over the children that it is said to contain. -/
  | wrapChildren {asked : σ} {taken : List Slot}
      (answers : (included contains store item (store.children stop)).run asked = (taken, ended))
      (some : taken ≠ []) :
      Takes contains store item stop ended .wrapChildren taken (wrapChildren store stop taken item)
  /-- The item takes over nothing. -/
  | newSibling :
      Takes contains store item stop ended .newSibling [] (store.add (.some item) (.some stop))

/-- What a round at a node comes to, whatever the answers are. -/
def Turn.Fits (contains : Relation σ α) (store : LinkedForest α) (item : α) (current : Slot)
    (ended : σ) : Turn α → Prop
  | .placed step grown => ∃ taken, Takes contains store item current ended step taken grown
  | .descend next => next ∈ store.children current
  | .refused _ => True

/-- The slots that are chosen are some of those asked about. -/
theorem yields_included (slots : List Slot) :
    Yields (included contains store item slots) fun chosen => ∀ slot ∈ chosen, slot ∈ slots := by
  induction slots with
  | nil => exact .pure (by simp)
  | cons slot rest later =>
    have any : Yields (containedBy contains store item slot) fun _ => True := fun _ => trivial
    refine any.bind fun answer _ => later.bind fun others within => .pure ?_
    cases answer with
    | true => simpa using fun other listed => .inr (within other listed)
    | false => exact fun other listed => List.mem_cons_of_mem slot (within other listed)

/-- The slot that is found is one of those asked about. -/
theorem yields_findM? (asks : Slot → StateM σ Bool) (slots : List Slot) :
    Yields (slots.findM? asks) fun found => ∀ next ∈ found, next ∈ slots := by
  induction slots with
  | nil => exact .pure (by simp)
  | cons slot rest later =>
    have any : Yields (asks slot) fun _ => True := fun _ => trivial
    refine any.bind fun answer _ => ?_
    cases answer with
    | true => exact .pure (by simp)
    | false =>
      intro state next listed
      exact List.mem_cons_of_mem slot (later state next listed)

section Rounds

variable {current : Slot} {state ended : σ} {outcome : Turn α}

/-- Joining places the item below the node, after its children, or refuses it. -/
theorem fits_join (ran : (join contains store item current).run state = (outcome, ended)) :
    outcome.Fits contains store item current ended := by
  by_cases here : current = top
  · rw [join, if_pos here] at ran
    obtain ⟨rfl, rfl⟩ := Prod.mk.inj ran
    exact ⟨_, .newSibling⟩
  · rcases answerRun : (nodeContains contains store current item).run state with ⟨answer, last⟩
    rw [join, if_neg here, run_bind_of_run answerRun] at ran
    cases answer with
    | true =>
      obtain ⟨rfl, rfl⟩ := Prod.mk.inj ran
      exact ⟨_, .newSibling⟩
    | false =>
      obtain ⟨rfl, rfl⟩ := Prod.mk.inj ran
      exact trivial

/-- A round at a node that the item does not contain comes to a placement there, a step down to a
child or a refusal. -/
theorem fits_settle (ran : (settle contains store item current).run state = (outcome, ended)) :
    outcome.Fits contains store item current ended := by
  rcases answers : (included contains store item (store.children current)).run state with
    ⟨taken, middle⟩
  rw [settle, run_bind_of_run answers] at ran
  cases taken with
  | cons first rest =>
    obtain ⟨rfl, rfl⟩ := Prod.mk.inj ran
    exact ⟨_, .wrapChildren answers (by simp)⟩
  | nil =>
    have within := yields_findM? (fun child => nodeContains contains store child item)
      (store.children current) middle
    rcases search : ((store.children current).findM? fun child =>
      nodeContains contains store child item).run middle with ⟨found, last⟩
    rw [search] at within
    have ran : StateT.run (_ >>= _ : StateM σ (Turn α)) middle = (outcome, ended) := ran
    rw [run_bind_of_run search] at ran
    cases found with
    | some next =>
      obtain ⟨rfl, rfl⟩ := Prod.mk.inj ran
      exact within next rfl
    | none => exact fits_join ran

/-- A round puts the item above the node, above children of the node or above nothing, or it goes on
at a child. -/
theorem fits_turn (ran : (turn contains store item current).run state = (outcome, ended)) :
    outcome.Fits contains store item current ended := by
  by_cases here : current = top
  · rw [turn, if_pos here] at ran
    exact fits_settle ran
  · rcases answerRun : (containedBy contains store item current).run state with ⟨answer, middle⟩
    rw [turn, if_neg here, run_bind_of_run answerRun] at ran
    cases answer with
    | true =>
      obtain ⟨rfl, rfl⟩ := Prod.mk.inj ran
      exact ⟨_, .wrapNode here⟩
    | false => exact fits_settle ran

end Rounds

/-- Rounds of a walk from one node to another, each of which goes on at a child: the slots that they
lead to, and the states of the relation before and after them. -/
inductive Descends (contains : Relation σ α) (store : LinkedForest α) (item : α) :
    Slot → σ → List Slot → Slot → σ → Prop
  /-- No round. -/
  | stay {current : Slot} {state : σ} : Descends contains store item current state [] current state
  /-- A round that goes on at a child, and those after it. -/
  | down {current next stop : Slot} {state middle asked : σ} {way : List Slot}
      (round : (turn contains store item current).run state = (.descend next, middle))
      (later : Descends contains store item next middle way stop asked) :
      Descends contains store item current state (next :: way) stop asked

/-- Rounds lead from a node of a tree to a node of the tree. -/
theorem Descends.lt_size (tree : IsTree store items) {current stop : Slot} {state asked : σ}
    {way : List Slot} (descends : Descends contains store item current state way stop asked)
    (present : current < store.size) : stop < store.size := by
  induction descends with
  | stay => exact present
  | down round _ lower => exact lower (tree.listed _ _ (fits_turn round)).2

/-- A walk that places the item has gone down to a node and ended there. -/
theorem exists_descends {levels : Nat} {current slot : Slot} {state ended : σ}
    {attempt : Attempt α}
    (ran : walk contains store item levels current state = some (attempt, ended))
    (result : attempt.result = .ok slot) :
    slot = store.size ∧ ∃ way stop asked last,
      Descends contains store item current state way stop asked ∧
      (turn contains store item stop).run asked = (.placed last attempt.forest, ended) ∧
      attempt.steps = way.map Step.descend ++ [last] := by
  induction levels generalizing current state attempt with
  | zero => contradiction
  | succ levels later =>
    rw [walk_eq] at ran
    rcases round : (turn contains store item current).run state with ⟨outcome, middle⟩
    rw [round] at ran
    cases outcome with
    | placed last grown =>
      obtain ⟨rfl, rfl⟩ := Prod.mk.inj (Option.some.inj ran)
      exact ⟨(Except.ok.inj result).symm, [], current, state, last, .stay, round, rfl⟩
    | refused refusal =>
      obtain ⟨rfl, rfl⟩ := Prod.mk.inj (Option.some.inj ran)
      contradiction
    | descend next =>
      obtain ⟨⟨inner, last⟩, walked, same⟩ := Option.map_eq_some_iff.mp ran
      obtain ⟨rfl, rfl⟩ := Prod.mk.inj same
      obtain ⟨new, way, stop, asked, step, descends, placed, steps⟩ := later walked result
      refine ⟨new, next :: way, stop, asked, step, .down round descends, placed, ?_⟩
      exact congrArg (.descend next :: ·) steps

/-- The new node has come between what it takes over and the node where the walk has ended, or the
parent of that node if it takes over the node itself. -/
theorem Takes.interposed (tree : IsTree store items) {stop : Slot} (present : stop < store.size)
    {ended : σ} {last : Step} {taken : List Slot} {grown : LinkedForest α}
    (takes : Takes contains store item stop ended last taken grown) :
    Interposed store grown (if last = .wrapNode then parent? store stop else some stop) taken := by
  cases takes with
  | wrapNode inner => exact interposed_wrapNode present tree inner item
  | @wrapChildren asked taken answers =>
    have within : ∀ child ∈ ((included contains store item (store.children stop)).run asked).1,
        child ∈ store.children stop := yields_included (store.children stop) asked
    rw [answers] at within
    exact interposed_wrapChildren present tree within item
  | newSibling => exact interposed_newSibling present item

/-- Whatever a relation answers, an insertion that succeeds leaves the old nodes above each other as
they were. The walk has gone down to a node and taken over some nodes there. Above the new node is
what is above the node where the walk has ended, and this node itself unless it is taken over. Below
the new node are the nodes that it takes over and what is below them. -/
theorem insert_conserves (reachable : Reachable store items) {state ended : σ}
    {attempt : Attempt α} {slot : Slot}
    (ran : insert contains store item state = some (attempt, ended))
    (result : attempt.result = .ok slot) :
    (∀ upper lower, upper ≠ slot → lower ≠ slot →
      (attempt.forest.IsAbove upper lower ↔ store.IsAbove upper lower)) ∧
    ∃ way stop asked last taken,
      Descends contains store item top state way stop asked ∧
      (turn contains store item stop).run asked = (.placed last attempt.forest, ended) ∧
      attempt.steps = way.map Step.descend ++ [last] ∧
      Takes contains store item stop ended last taken attempt.forest ∧
      (∀ upper, attempt.forest.IsAbove upper slot ↔
        upper = stop ∧ last ≠ .wrapNode ∨ store.IsAbove upper stop) ∧
      ∀ lower, attempt.forest.IsAbove slot lower ↔
        ∃ child ∈ taken, child = lower ∨ store.IsAbove child lower := by
  obtain ⟨forest, represents⟩ := reachable.exists_represents
  have tree := represents.isTree
  have start : top < store.size := by
    rw [represents.size]
    exact Nat.succ_pos _
  obtain ⟨rfl, way, stop, asked, last, descends, placed, steps⟩ := exists_descends ran result
  have present := descends.lt_size tree start
  obtain ⟨taken, takes⟩ := fits_turn placed
  have interposed := takes.interposed tree present
  refine ⟨fun upper lower => interposed.isAbove_iff tree.grounded, way, stop, asked, last, taken,
    descends, placed, steps, takes, fun upper => ?_, interposed.new_isAbove_iff tree.grounded⟩
  rw [interposed.isAbove_new_iff tree.grounded]
  split
  · next wraps =>
    rw [tree.grounded.isAbove_iff_parent? present]
    simp [wraps]
  · next other => simp [other]

/-- A relation by which one contains everything, and two does not contain one the first time that it
is asked. -/
def fickle : Relation Bool Nat := fun outer inner => do
  if outer = 1 then return true
  else if outer = 2 ∧ inner = 1 then
    let asked ← get
    set true
    return asked
  else return false

/-- The linked forest with three below one. -/
def nested : LinkedForest Nat :=
  ⟨#[⟨none, none, [1]⟩, ⟨some 1, some 0, [2]⟩, ⟨some 3, some 1, []⟩], some 0⟩

/-- Two comes down to one and then wraps it, which leaves three below one. -/
theorem insert_conserves_fickle :
    Reachable nested [1, 3] ∧
      ∃ after ended, insert fickle nested 2 false =
          some (⟨[.descend 1, .wrapNode], .ok 3, after⟩, ended) ∧
        (∀ upper lower, upper ≠ 3 → lower ≠ 3 →
          (after.IsAbove upper lower ↔ nested.IsAbove upper lower)) ∧
        (∀ upper, after.IsAbove upper 3 ↔ nested.IsAbove upper 1) ∧
        ∀ lower, after.IsAbove 3 lower ↔ 1 = lower ∨ nested.IsAbove 1 lower := by
  have first : insert fickle bare 1 false =
      some (⟨[.newSibling], .ok 1, bare.add (some 1) (some 0)⟩, false) :=
    rfl
  have second : insert fickle (bare.add (some 1) (some 0)) 3 false =
      some (⟨[.descend 1, .newSibling], .ok 2, nested⟩, false) :=
    rfl
  have reachable : Reachable nested [1, 3] := .placed (.placed .bare first rfl) second rfl
  have ran : insert fickle nested 2 false =
      some (⟨[.descend 1, .wrapNode], .ok 3, wrapNode nested 1 2⟩, true) :=
    rfl
  obtain ⟨old, way, stop, asked, last, taken, descends, -, steps, takes, above, below⟩ :=
    insert_conserves reachable ran rfl
  obtain ⟨down, ends⟩ := List.append_inj' (show [Step.descend 1] ++ [.wrapNode] = _ from steps) rfl
  obtain rfl := List.singleton_inj.mp ends
  obtain ⟨stop_one, taken_one⟩ : stop = 1 ∧ taken = [1] := by
    obtain ⟨next, rfl, rfl⟩ : ∃ next, way = [next] ∧ next = 1 := by
      cases way with
      | nil => simp at down
      | cons next rest => simp_all
    cases descends with
    | down round later =>
      cases later with
      | stay =>
        cases takes with
        | wrapNode => exact ⟨rfl, rfl⟩
  refine ⟨reachable, _, _, ran, old, fun upper => ?_, fun lower => ?_⟩
  · simpa [stop_one] using above upper
  · simpa [taken_one] using below lower

end Laminar.LinkedForest
