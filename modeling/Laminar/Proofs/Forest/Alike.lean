import Laminar.NodeStore.Walk
import Laminar.Proofs.Forest.Tree

/-!
# Relations that always answer alike

A walk comes down to a node only after the item was asked about the node, among the children of the
node above, and was found not to contain it. A relation that always answers alike says so again at
the node itself, and also says again that the node contains the item. So such a relation, whatever
its answers are, never has an item wrap a node that the walk came down to, and never leaves an item
without a place. Every walk goes down some levels, at most all that there are, and ends with one
placement (`GoesDown`).
-/

namespace Laminar

namespace Forest

variable {α : Type}

/-- The steps of a walk that goes down at most some levels and then places the item below the node
that it came to. -/
def GoesDown (levels : Nat) (steps : List Step) : Prop :=
  ∃ (slots : List Nat) (last : Step), steps = slots.map Step.descend ++ [last] ∧
    (last = .wrapChildren ∨ last = .newSibling) ∧ slots.length ≤ levels

namespace GoesDown

variable {levels : Nat} {steps : List Step}

/-- One step more leads down one level more. -/
theorem descend (down : GoesDown levels steps) (slot : Nat) :
    GoesDown (levels + 1) (.descend slot :: steps) := by
  obtain ⟨slots, last, rfl, placed, few⟩ := down
  exact ⟨slot :: slots, last, rfl, placed, Nat.succ_le_succ few⟩

/-- A walk that goes down few levels goes down at most more. -/
theorem mono (down : GoesDown levels steps) {more : Nat} (le : levels ≤ more) :
    GoesDown more steps := by
  obtain ⟨slots, last, same, placed, few⟩ := down
  exact ⟨slots, last, same, placed, Nat.le_trans few le⟩

/-- No node is wrapped. -/
theorem wrapNode_not_mem (down : GoesDown levels steps) : Step.wrapNode ∉ steps := by
  obtain ⟨slots, last, rfl, rfl | rfl, -⟩ := down <;> simp

end GoesDown

/-- With answers that never contradict each other, a walk goes down no more levels than there
are. -/
theorem Lands.goesDown {answers : α → α → Bool → Prop}
    (alike : ∀ a b, answers a b true → ¬ answers a b false) {new : Planted α}
    {trees grown : Grove (Planted α)} {steps : List Step}
    (lands : Lands answers new trees steps grown) :
    GoesDown trees.height steps := by
  induction lands with
  | wrapChildren => exact ⟨[], _, rfl, .inl rfl, Nat.zero_le _⟩
  | newSibling => exact ⟨[], _, rfl, .inr rfl, Nat.zero_le _⟩
  | wrapNode left refused _ _ wraps =>
    exact absurd (refused _ (by simp [Grove.roots])) (alike _ _ wraps)
  | descend left _ _ _ _ down =>
    refine (down.descend _).mono ?_
    rw [Grove.height_append, Grove.height]
    omega

end Forest

namespace LinkedForest

open Forest (Planted GoesDown)

variable {σ α : Type} {store : LinkedForest α}

/-! ## Depth -/

/-- The longest way down from the trees that a linked forest shows is that of the trees. -/
theorem Shows.heightWithin_tops {owner : Slot} {trees : Grove (Planted α)}
    (shows : Shows store owner trees) {levels : Nat} (enough : trees.height ≤ levels) :
    ((tops trees).map (store.heightWithin levels)).foldl max 0 = trees.height := by
  induction trees generalizing owner levels with
  | nil => rfl
  | node planted below beside inner later =>
    obtain ⟨here, lower, right⟩ := shows
    rw [Grove.height] at enough ⊢
    obtain ⟨fewer, rfl⟩ : ∃ fewer, levels = fewer + 1 := ⟨levels - 1, by omega⟩
    have height : store.heightWithin (fewer + 1) planted.slot = 1 + below.height := by
      rw [NodeStore.heightWithin, here]
      exact congrArg (1 + ·) (inner lower (by omega))
    rw [tops_node, List.map_cons, List.foldl_cons, Nat.max_comm, List.foldl_assoc, height,
      later right (by omega)]

section Alike

variable {forest : Forest α} {items : List α} (represents : Represents store forest items)
  (answer : α → α → Bool)

include represents

/-- The top is one level more. -/
theorem Represents.depth_eq : store.depth = forest.depth + 1 := by
  have levels := represents.shows.heightWithin_tops represents.height_le
  rw [NodeStore.depth, represents.root, represents.size]
  show NodeStore.heightWithin store (items.length + 1) top = _
  rw [NodeStore.heightWithin, represents.links]
  exact (congrArg (1 + ·) levels).trans (Nat.add_comm 1 _)

/-! ## Insertions -/

/-- An item always has a place, and its walk goes down no more levels than there are. A refusal
would need a node that contains the item the first time and not the second. -/
theorem Represents.insert_alike (item : α) (state : σ) :
    ∃ attempt grown ended,
      insert (Relation.ofBool answer) store item state = some (attempt, ended) ∧
      (forest.insert (Relation.ofBool answer) item).run state =
        ((attempt.steps, .ok grown), ended) ∧
      attempt.result = .ok store.size ∧
      Represents attempt.forest grown (items ++ [item]) ∧
      GoesDown (store.depth - 1) attempt.steps := by
  obtain ⟨attempt, ran, same, ends⟩ :=
    represents.agrees_insert (Relation.ofBool answer) item state
  have sound (a b : α) : Yields (Relation.ofBool (σ := σ) answer a b) (answer a b = ·) :=
    Forest.yields_ofBool a b
  have landed := Forest.yields_insert sound forest item state
  rcases outcome : (forest.insert (Relation.ofBool answer) item).run state with
    ⟨⟨steps, result⟩, ended⟩
  rw [outcome] at ran same ends landed
  subst same
  cases result with
  | error misfit =>
    obtain ⟨node, -, first, second⟩ := landed
    exact absurd (first.symm.trans second) (by decide)
  | ok grown =>
    refine ⟨attempt, grown, ended, ran, rfl, ends.1, ends.2, ?_⟩
    rw [represents.depth_eq]
    exact landed.2.goesDown fun a b yes no => absurd (yes.symm.trans no) (by decide)

/-- Items that are inserted one after another all have a place, each in the next slot, and at all
times the linked forest shows the forest that is built of the items so far. -/
theorem Represents.insertEach_shows (rest : List α) (state : σ) :
    ∃ attempts grown ended,
      insertEach (Relation.ofBool answer) store rest state = some (attempts, ended) ∧
      (forest.insertAll (Relation.ofBool answer) rest).run state = (.ok grown, ended) ∧
      grown.toList.Perm (Forest.planting 0 (items ++ rest)) ∧
      attempts.length = rest.length ∧
      (∀ turn after, (store :: attempts.map Attempt.forest)[turn]? = some after →
        ∃ shown,
          ((forest.insertAll (Relation.ofBool answer) (rest.take turn)).run state).1 = .ok shown ∧
          Represents after shown (items ++ rest.take turn)) ∧
      ∀ (turn : Nat) (attempt : Attempt α), attempts[turn]? = some attempt →
        ∃ before, (store :: attempts.map Attempt.forest)[turn]? = some before ∧
          attempt.result = .ok (store.size + turn) ∧
          GoesDown (before.depth - 1) attempt.steps := by
  induction rest generalizing store forest items state with
  | nil =>
    refine ⟨[], forest, state, rfl, rfl, ?_, rfl, ?_, by simp⟩
    · rw [List.append_nil]
      exact represents.planted
    · rintro (_ | turn) after listed
      · obtain rfl := Option.some.inj listed
        refine ⟨forest, rfl, ?_⟩
        rw [List.take_nil, List.append_nil]
        exact represents
      · contradiction
  | cons item rest later =>
    obtain ⟨first, larger, middle, ran, inserted, result, shown, down⟩ :=
      represents.insert_alike answer item state
    obtain ⟨others, grown, ended, ranOthers, insertedOthers, planted, length, shows, each⟩ :=
      later shown middle
    rw [List.append_assoc] at planted
    refine ⟨first :: others, grown, ended, insertEach_cons ran ranOthers, ?_, planted,
      congrArg (· + 1) length, ?_, ?_⟩
    · rw [Forest.insertAll, run_bind_of_run inserted]
      exact insertedOthers
    · rintro (_ | turn) after listed
      · obtain rfl := Option.some.inj listed
        refine ⟨forest, rfl, ?_⟩
        rw [List.take_zero, List.append_nil]
        exact represents
      · obtain ⟨built, builtOthers, afterwards⟩ := shows turn after listed
        refine ⟨built, ?_, ?_⟩
        · rw [List.take_succ_cons, Forest.insertAll, run_bind_of_run inserted]
          exact builtOthers
        · rw [List.append_assoc] at afterwards
          exact afterwards
    · rintro (_ | turn) attempt listed
      · obtain rfl := Option.some.inj listed
        exact ⟨store, rfl, result, down⟩
      · obtain ⟨before, prior, placed, goesDown⟩ := each turn attempt listed
        have next : first.forest.size = store.size + 1 := by
          rw [shown.size, represents.size, List.length_append, List.length_singleton]
        refine ⟨before, prior, ?_, goesDown⟩
        rw [placed, next, Nat.add_right_comm, Nat.add_assoc]

/-- Items that are inserted one after another all have a place, each in the next slot of a tree. -/
theorem Represents.places_insertEach (rest : List α) (state : σ) :
    ∃ attempts grown ended,
      insertEach (Relation.ofBool answer) store rest state = some (attempts, ended) ∧
      (forest.insertAll (Relation.ofBool answer) rest).run state = (.ok grown, ended) ∧
      grown.toList.Perm (Forest.planting 0 (items ++ rest)) ∧
      attempts.length = rest.length ∧
      ∀ turn attempt, attempts[turn]? = some attempt →
        ∃ before, (store :: attempts.map Attempt.forest)[turn]? = some before ∧
          attempt.result = .ok (store.size + turn) ∧
          IsTree attempt.forest (items ++ rest.take (turn + 1)) ∧
          GoesDown (before.depth - 1) attempt.steps := by
  obtain ⟨attempts, grown, ended, ran, inserted, planted, length, shows, each⟩ :=
    represents.insertEach_shows answer rest state
  refine ⟨attempts, grown, ended, ran, inserted, planted, length, fun turn attempt listed => ?_⟩
  obtain ⟨before, prior, placed, down⟩ := each turn attempt listed
  have next : (store :: attempts.map Attempt.forest)[turn + 1]? = some attempt.forest := by
    rw [List.getElem?_cons_succ, List.getElem?_map, listed, Option.map_some]
  obtain ⟨_, _, shown⟩ := shows (turn + 1) attempt.forest next
  exact ⟨before, prior, placed, shown.isTree, down⟩

end Alike

/-- By a relation that always answers alike, whatever its answers are, every item has a place: the
insertions into a bare linked forest put each item into the next slot of a tree. No insertion wraps
a node that its walk came down to, and none goes down more levels than there were. A forest can be
built of the same items, and has each of them once. -/
theorem insertEach_alike (answer : α → α → Bool) (items : List α) (state : σ) :
    ∃ attempts grown ended,
      insertEach (Relation.ofBool answer) bare items state = some (attempts, ended) ∧
      (Forest.build (Relation.ofBool answer) items).run state = (.ok grown, ended) ∧
      grown.toList.Perm (Forest.planting 0 items) ∧
      attempts.length = items.length ∧
      ∀ turn attempt, attempts[turn]? = some attempt →
        ∃ before, (bare :: attempts.map Attempt.forest)[turn]? = some before ∧
          attempt.result = .ok (1 + turn) ∧
          IsTree attempt.forest (items.take (turn + 1)) ∧
          .wrapNode ∉ attempt.steps ∧
          GoesDown (before.depth - 1) attempt.steps := by
  obtain ⟨attempts, grown, ended, ran, built, planted, length, each⟩ :=
    represents_bare.places_insertEach answer items state
  refine ⟨attempts, grown, ended, ran, built, planted, length, fun turn attempt listed => ?_⟩
  obtain ⟨before, prior, placed, tree, down⟩ := each turn attempt listed
  exact ⟨before, prior, placed, tree, down.wrapNode_not_mem, down⟩

/-- Each of three items contains the next one, and the last contains the first. -/
example :
    (insertEach (Relation.ofBool fun outer inner : Nat => (outer + 1) % 3 == inner) bare [0, 1, 2]
        ()).map (fun ran => ran.1.map fun attempt => attempt.steps.map Forest.Step.number) =
      some [[4], [3, 4], [2]] :=
  rfl

end LinkedForest

end Laminar
