import Mathlib.Data.List.Pairwise
import Laminar.Proofs.Forest.Ancestry
import Laminar.Proofs.Forest.Walk

/-!
# What a check finds

By a relation that always answers alike, a check of a linked forest finds nothing if and only if all
items contain those below them and no two siblings are related. Otherwise it finds a pair for which
this fails, one of siblings only if all items contain those below them.

If a check by a strict order finds nothing, the trees are arranged by it, whatever relation has
built them. So those of a laminar family mirror it, and any two linked forests of its items in which
a check finds nothing have the same parents (`check_decides`).
-/

namespace Laminar

namespace Forest

variable {σ α : Type} (contains : α → α → Bool)

/-- What a check finds about an item and one above it. -/
def ancestorMisfit? (pair : α × α) : Option (Misfit α) :=
  if contains pair.1 pair.2 then none else some (.notContained pair.2 pair.1)

/-- What a check finds about two siblings. -/
def siblingMisfit? (pair : α × α) : Option (Misfit α) :=
  if contains pair.1 pair.2 || contains pair.2 pair.1 then some (.relatedSiblings pair.1 pair.2)
  else none

/-- By a relation that always answers alike, the check of an item above another needs no questions.
-/
theorem checkAncestor_ofBool :
    checkAncestor (σ := σ) (Relation.ofBool contains) = fun pair =>
      pure (ancestorMisfit? contains pair) := by
  funext pair
  rw [checkAncestor, Relation.ofBool, pure_bind, ancestorMisfit?]
  split <;> rfl

/-- By a relation that always answers alike, the check of two siblings needs no questions. -/
theorem checkSiblings_ofBool :
    checkSiblings (σ := σ) (Relation.ofBool contains) = fun pair =>
      pure (siblingMisfit? contains pair) := by
  funext pair
  rw [checkSiblings, Relation.ofBool, pure_bind, siblingMisfit?]
  cases contains pair.1 pair.2 with
  | true => rfl
  | false =>
    rw [Relation.ofBool, pure_bind]
    cases contains pair.2 pair.1 <;> rfl

/-- Without questions, the first misfit is the first that is found in the list. -/
theorem firstMisfit?_pure {β : Type} (find : β → Option (Misfit α)) (list : List β) :
    firstMisfit? (σ := σ) (fun x => pure (find x)) list = pure (list.findSome? find) := by
  induction list with
  | nil => rfl
  | cons x rest later =>
    rw [firstMisfit?, pure_bind, List.findSome?_cons]
    cases find x with
    | some misfit => rfl
    | none => exact later

variable {contains}

/-- Nothing is wrong with an item above another if and only if it contains the other. -/
theorem ancestorMisfit?_eq_none_iff (pair : α × α) :
    ancestorMisfit? contains pair = none ↔ contains pair.1 pair.2 = true := by
  simp [ancestorMisfit?]

/-- Nothing is wrong with two siblings if and only if neither contains the other. -/
theorem siblingMisfit?_eq_none_iff (pair : α × α) :
    siblingMisfit? contains pair = none ↔
      contains pair.1 pair.2 = false ∧ contains pair.2 pair.1 = false := by
  simp [siblingMisfit?]

end Forest

namespace LinkedForest

open Forest (Planted ancestorMisfit? siblingMisfit?)

variable {σ α : Type} {store : LinkedForest α} {contains : α → α → Bool}

/-- The node of one item is on the way up from the node of another. -/
def ItemAbove (store : LinkedForest α) (outer inner : α) : Prop :=
  ∃ upper lower, store.IsAbove upper lower ∧ item? store upper = some outer ∧
    item? store lower = some inner

/-- The nodes of two items are different children of one node. -/
def ItemsBeside (store : LinkedForest α) (first second : α) : Prop :=
  ∃ owner left right, left ∈ store.children owner ∧ right ∈ store.children owner ∧ left ≠ right ∧
    item? store left = some first ∧ item? store right = some second

/-- Two siblings are siblings in either order. -/
theorem ItemsBeside.symm {first second : α} (siblings : ItemsBeside store first second) :
    ItemsBeside store second first := by
  obtain ⟨owner, left, right, inLeft, inRight, different, here, there⟩ := siblings
  exact ⟨owner, right, left, inRight, inLeft, different.symm, there, here⟩

/-- A check by a relation that always answers alike finds the first misfit, and those of siblings
come last. -/
theorem run_disagreement? (contains : α → α → Bool) (store : LinkedForest α) (state : σ) :
    ((disagreement? (Relation.ofBool contains) store).run state).1 =
      ((ancestorPairs store).findSome? (ancestorMisfit? contains)).or
        ((siblingPairs store).findSome? (siblingMisfit? contains)) := by
  rw [disagreement?, Forest.checkAncestor_ofBool, Forest.checkSiblings_ofBool,
    Forest.firstMisfit?_pure, Forest.firstMisfit?_pure, pure_bind]
  cases (ancestorPairs store).findSome? (ancestorMisfit? contains) <;> rfl

namespace Represents

variable {forest : Forest α} {items : List α} (represents : Represents store forest items)

include represents

/-- A check goes through all items and those above them. -/
theorem mem_ancestorPairs_iff (outer inner : α) :
    (outer, inner) ∈ ancestorPairs store ↔ ItemAbove store outer inner := by
  constructor
  · intro listed
    obtain ⟨lower, -, listed⟩ := List.mem_flatMap.mp listed
    obtain ⟨item, here, listed⟩ := List.mem_flatMap.mp listed
    obtain ⟨above, higher, same⟩ := List.mem_map.mp listed
    obtain ⟨rfl, rfl⟩ := Prod.mk.inj same
    obtain ⟨upper, way, there⟩ := List.mem_filterMap.mp higher
    cases walked : store.ancestors? lower with
    | none => simp [walked] at way
    | some slots =>
      rw [walked] at way
      exact ⟨upper, lower, ⟨slots, walked, way⟩, there, Option.mem_toList.mp here⟩
  · rintro ⟨upper, lower, ⟨slots, walked, way⟩, there, here⟩
    obtain ⟨node, found, -⟩ := Option.bind_eq_some_iff.mp here
    have met := represents.mem_preorder (NodeStore.lt_size_of_node? found)
    have higher : outer ∈ itemsAbove store lower := by
      rw [itemsAbove, walked]
      exact List.mem_filterMap.mpr ⟨upper, way, there⟩
    refine List.mem_flatMap.mpr ⟨lower, met, List.mem_flatMap.mpr ⟨inner, ?_, ?_⟩⟩
    · exact Option.mem_toList.mpr here
    · exact List.mem_map_of_mem higher

/-- The pairs of siblings are in different children of one node. -/
theorem itemsBeside_of_mem_siblingPairs :
    ∀ pair ∈ siblingPairs store, ItemsBeside store pair.1 pair.2 := by
  intro pair listed
  obtain ⟨owner, -, listed⟩ := List.mem_flatMap.mp listed
  refine (Forest.forall_pairs_iff (ItemsBeside store) _).mpr ?_ pair listed
  rw [childItems, List.pairwise_filterMap]
  have distinct : (store.children owner).Pairwise (· ≠ ·) := (represents.of_mem_children owner).1
  refine distinct.imp_of_mem fun {left right} inLeft inRight different first here second there => ?_
  exact ⟨owner, left, right, inLeft, inRight, different, here, there⟩

/-- A check goes through all pairs of siblings, each in the direction in which the two come in the
list of children. -/
theorem mem_siblingPairs_of_itemsBeside {first second : α}
    (siblings : ItemsBeside store first second) :
    (first, second) ∈ siblingPairs store ∨ (second, first) ∈ siblingPairs store := by
  obtain ⟨owner, left, right, inLeft, inRight, different, here, there⟩ := siblings
  have met := represents.mem_preorder (NodeStore.lt_size_of_mem_children inLeft)
  have paired : (childItems store owner).Pairwise fun x y =>
      (x, y) ∈ siblingPairs store ∨ (y, x) ∈ siblingPairs store := by
    refine (Forest.forall_pairs_iff _ _).mp fun pair listed => .inl ?_
    exact List.mem_flatMap.mpr ⟨owner, met, listed⟩
  rw [childItems, List.pairwise_filterMap] at paired
  have symmetric : Std.Symm fun i j => ∀ x, item? store i = some x → ∀ y, item? store j = some y →
      (x, y) ∈ siblingPairs store ∨ (y, x) ∈ siblingPairs store :=
    ⟨fun i j related y inJ x inI => (related x inI y inJ).symm⟩
  exact paired.forall inLeft inRight different first here second there

/-- No pair of an item and one above it is a misfit if and only if all items contain those below
them. -/
theorem findSome?_ancestorPairs_eq_none_iff :
    (ancestorPairs store).findSome? (ancestorMisfit? contains) = none ↔
      ∀ outer inner, ItemAbove store outer inner → contains outer inner = true := by
  simp only [List.findSome?_eq_none_iff, Forest.ancestorMisfit?_eq_none_iff, Prod.forall,
    represents.mem_ancestorPairs_iff]

/-- No pair of siblings is a misfit if and only if no two siblings are related. -/
theorem findSome?_siblingPairs_eq_none_iff :
    (siblingPairs store).findSome? (siblingMisfit? contains) = none ↔
      ∀ first second, ItemsBeside store first second → contains first second = false := by
  simp only [List.findSome?_eq_none_iff, Forest.siblingMisfit?_eq_none_iff]
  constructor
  · intro apart first second siblings
    rcases represents.mem_siblingPairs_of_itemsBeside siblings with listed | listed
    · exact (apart _ listed).1
    · exact (apart _ listed).2
  · intro apart pair listed
    have siblings := represents.itemsBeside_of_mem_siblingPairs pair listed
    exact ⟨apart _ _ siblings, apart _ _ siblings.symm⟩

/-- A check finds nothing if all items contain those below them and no two siblings are related, and
only then. -/
theorem disagreement?_eq_none_iff (state : σ) :
    ((disagreement? (Relation.ofBool contains) store).run state).1 = none ↔
      (∀ outer inner, ItemAbove store outer inner → contains outer inner = true) ∧
        ∀ first second, ItemsBeside store first second → contains first second = false := by
  rw [run_disagreement?, Option.or_eq_none_iff, represents.findSome?_ancestorPairs_eq_none_iff,
    represents.findSome?_siblingPairs_eq_none_iff]

/-- What a check finds is a pair of items that is at odds with the relation. -/
theorem misfit_of_disagreement? {state : σ} {misfit : Forest.Misfit α}
    (found : ((disagreement? (Relation.ofBool contains) store).run state).1 = some misfit) :
    (∃ outer inner, ItemAbove store outer inner ∧ contains outer inner = false ∧
        misfit = .notContained inner outer) ∨
      (∀ outer inner, ItemAbove store outer inner → contains outer inner = true) ∧
        ∃ first second, ItemsBeside store first second ∧
          (contains first second = true ∨ contains second first = true) ∧
          misfit = .relatedSiblings first second := by
  rw [run_disagreement?, Option.or_eq_some_iff] at found
  rcases found with found | ⟨none, found⟩
  · obtain ⟨⟨outer, inner⟩, listed, finds⟩ := List.exists_of_findSome?_eq_some found
    have above := (represents.mem_ancestorPairs_iff outer inner).mp listed
    rw [ancestorMisfit?] at finds
    split at finds
    · contradiction
    · next refused =>
      exact .inl ⟨outer, inner, above, Bool.eq_false_iff.mpr refused, (Option.some.inj finds).symm⟩
  · obtain ⟨⟨first, second⟩, listed, finds⟩ := List.exists_of_findSome?_eq_some found
    have beside := represents.itemsBeside_of_mem_siblingPairs _ listed
    rw [siblingMisfit?] at finds
    split at finds
    · next related =>
      have above := represents.findSome?_ancestorPairs_eq_none_iff.mp none
      have either : contains first second = true ∨ contains second first = true := by
        simpa using related
      exact .inr ⟨above, first, second, beside, either, (Option.some.inj finds).symm⟩
    · contradiction

/-- If a check finds nothing, the trees are arranged by the relation. -/
theorem arranged_of_disagreement? {state : σ}
    (none : ((disagreement? (Relation.ofBool contains) store).run state).1 = none) :
    Forest.Arranged contains forest.trees := by
  rw [run_disagreement?, Option.or_eq_none_iff, represents.ancestorPairs_eq,
    represents.siblingPairs_eq] at none
  simp only [List.findSome?_eq_none_iff, Forest.ancestorMisfit?_eq_none_iff,
    Forest.siblingMisfit?_eq_none_iff] at none
  obtain ⟨above, apart⟩ := none
  simp only [Forest.ancestorPairs, List.forall_mem_flatMap, List.forall_mem_map] at above
  simp only [Forest.siblingPairs, List.forall_mem_flatMap, List.forall_mem_cons,
    List.forall_mem_map,
    Forest.forall_pairs_iff fun a b => contains a b = false ∧ contains b a = false,
    List.pairwise_map] at apart
  have children : forest.trees.Families fun owner children =>
      ∀ child ∈ children, contains owner.item child.item = true := by
    refine (Grove.forall_links_iff
      (fun owner child : Planted α => contains owner.item child.item = true) _).mp ?_
    rw [Grove.links, List.forall_mem_map]
    exact fun place placed outer upper => above place placed outer (List.mem_of_mem_head? upper)
  refine ⟨apart.1, (Grove.families_iff _ _).mpr fun place placed => ⟨?_, apart.2 place placed⟩⟩
  exact (Grove.families_iff _ _).mp children place placed

/-- If the trees mirror a relation, a node is on the way up from another if its item contains the
other one's. -/
theorem isAbove_iff_contains (mirrors : Forest.Mirrors contains forest.trees) {upper lower : Slot}
    {outer inner : α} (there : item? store upper = some outer)
    (here : item? store lower = some inner) :
    store.IsAbove upper lower ↔ contains outer inner = true := by
  obtain ⟨place, placed, label⟩ := represents.exists_place here
  obtain ⟨other, otherPlaced, otherLabel⟩ := represents.exists_place there
  have present : ⟨upper, outer⟩ ∈ forest.trees.labels :=
    otherLabel ▸ Grove.label_mem_of_mem_placesBelow otherPlaced
  have above := represents.isAbove_iff placed present
  rw [mirrors.above place placed, and_iff_right present, label] at above
  exact above

section StrictOrder

variable (irreflexive : ∀ a, contains a a = false)
  (transitive : ∀ a b c, contains a b = true → contains b c = true → contains a c = true)

include irreflexive transitive

/-- If a check by a strict order finds nothing, the trees of a laminar family mirror it. -/
theorem mirrors_of_disagreement? (laminar : Forest.IsLaminar contains items) {state : σ}
    (none : ((disagreement? (Relation.ofBool contains) store).run state).1 = none) :
    Forest.Mirrors contains forest.trees := by
  have same := represents.planted.map Planted.item
  rw [Forest.map_item_planting] at same
  exact (represents.arranged_of_disagreement? none).mirrors transitive irreflexive
    (laminar.perm same.symm)

/-- Linked forests that mirror a strict order of the same items have the same parents. -/
theorem parentItem?_eq_of_mirrors (mirrors : Forest.Mirrors contains forest.trees)
    {other : LinkedForest α} {another : Forest α} {others : List α}
    (again : Represents other another others) (mirrored : Forest.Mirrors contains another.trees)
    (same : others.Perm items) {lower moved : Slot} {inner : α}
    (here : item? store lower = some inner) (there : item? other moved = some inner) :
    parentItem? other moved = parentItem? store lower := by
  obtain ⟨place, placed, label⟩ := represents.exists_place here
  obtain ⟨target, otherPlaced, otherLabel⟩ := again.exists_place there
  have items_perm : (another.trees.labels.map Planted.item).Perm
      (forest.trees.labels.map Planted.item) := by
    have first := represents.planted.map Planted.item
    have second := again.planted.map Planted.item
    rw [Forest.map_item_planting] at first second
    exact second.trans (same.trans first.symm)
  have above := mirrors.map_item_above_eq irreflexive transitive mirrored items_perm placed
    otherPlaced (by rw [label, otherLabel])
  have left := represents.parentItem?_eq place placed
  have right := again.parentItem?_eq target otherPlaced
  rw [Grove.Place.parent?, ← List.head?_map] at left right
  rw [label] at left
  rw [otherLabel] at right
  rw [left, right, above]

end StrictOrder

end Represents

/-- By a relation that always answers alike, a check of a linked forest, which may have been built
by other relations, finds nothing if and only if all items contain those below them and no two
siblings are related. What it finds is a pair for which this fails, one of siblings only if all
items contain those below them. If a check by a strict order of a laminar family finds nothing, a
node is on the way up from another if and only if its item contains the other one's, so all linked
forests of these items in which a check finds nothing have the same parents. -/
theorem check_decides {items : List α} (reachable : Reachable store items)
    (contains : α → α → Bool) (state : σ) :
    (((disagreement? (Relation.ofBool contains) store).run state).1 = none ↔
      (∀ outer inner, ItemAbove store outer inner → contains outer inner = true) ∧
        ∀ first second, ItemsBeside store first second → contains first second = false) ∧
    (∀ misfit, ((disagreement? (Relation.ofBool contains) store).run state).1 = some misfit →
      (∃ outer inner, ItemAbove store outer inner ∧ contains outer inner = false ∧
          misfit = .notContained inner outer) ∨
        (∀ outer inner, ItemAbove store outer inner → contains outer inner = true) ∧
          ∃ first second, ItemsBeside store first second ∧
            (contains first second = true ∨ contains second first = true) ∧
            misfit = .relatedSiblings first second) ∧
    ((∀ a, contains a a = false) →
      (∀ a b c, contains a b = true → contains b c = true → contains a c = true) →
      Forest.IsLaminar contains items →
      ((disagreement? (Relation.ofBool contains) store).run state).1 = none →
      (∀ upper lower outer inner, item? store upper = some outer → item? store lower = some inner →
        (store.IsAbove upper lower ↔ contains outer inner = true)) ∧
      ∀ other others, Reachable other others → others.Perm items →
        ((disagreement? (Relation.ofBool contains) other).run state).1 = none →
        ∀ lower moved inner, item? store lower = some inner → item? other moved = some inner →
          parentItem? other moved = parentItem? store lower) := by
  obtain ⟨forest, represents⟩ := reachable.exists_represents
  refine ⟨represents.disagreement?_eq_none_iff state, fun misfit found => ?_, ?_⟩
  · exact represents.misfit_of_disagreement? found
  · intro irreflexive transitive laminar none
    have mirrors := represents.mirrors_of_disagreement? irreflexive transitive laminar none
    refine ⟨fun upper lower outer inner there here => ?_, ?_⟩
    · exact represents.isAbove_iff_contains mirrors there here
    · intro other others otherReachable same otherNone lower moved inner here there
      obtain ⟨another, again⟩ := otherReachable.exists_represents
      have mirrored := again.mirrors_of_disagreement? irreflexive transitive
        (laminar.perm same.symm) otherNone
      exact represents.parentItem?_eq_of_mirrors irreflexive transitive mirrors again mirrored same
        here there

/-- The linked forest of two and four beside each other. -/
def flat : LinkedForest Nat :=
  ⟨#[⟨none, none, [1, 2]⟩, ⟨some 2, some 0, []⟩, ⟨some 4, some 0, []⟩], some 0⟩

/-- The linked forest of four, which came first, below two. -/
def wrapped : LinkedForest Nat :=
  ⟨#[⟨none, none, [2]⟩, ⟨some 4, some 2, []⟩, ⟨some 2, some 0, [1]⟩], some 0⟩

/-- The linked forest of two, which came first, above four. -/
def stacked : LinkedForest Nat :=
  ⟨#[⟨none, none, [1]⟩, ⟨some 2, some 0, [2]⟩, ⟨some 4, some 1, []⟩], some 0⟩

/-- Two divides four, so a check finds them as siblings that are related. Where four is below two it
finds nothing, and they are so in whatever order they came. -/
theorem check_decides_twoAndFour :
    (Reachable flat [2, 4] ∧
      ((disagreement? (Relation.ofBool Forest.dividesProperly) flat).run ()).1 =
        some (.relatedSiblings 2 4) ∧
      ¬ ∀ first second, ItemsBeside flat first second →
        Forest.dividesProperly first second = false) ∧
    Reachable wrapped [4, 2] ∧ Reachable stacked [2, 4] ∧
      ((disagreement? (Relation.ofBool Forest.dividesProperly) wrapped).run ()).1 = none ∧
      ((disagreement? (Relation.ofBool Forest.dividesProperly) stacked).run ()).1 = none ∧
      Forest.IsLaminar Forest.dividesProperly [4, 2] ∧
      (∀ upper lower outer inner, item? wrapped upper = some outer →
        item? wrapped lower = some inner →
          (wrapped.IsAbove upper lower ↔ Forest.dividesProperly outer inner = true)) ∧
      ∀ lower moved inner, item? wrapped lower = some inner → item? stacked moved = some inner →
        parentItem? stacked moved = parentItem? wrapped lower := by
  have ranFlat : insertEach (Relation.ofBool fun _ _ => false) bare [2, 4] () =
      some ([⟨[.newSibling], .ok 1, bare.add (some 2) (some 0)⟩,
        ⟨[.newSibling], .ok 2, flat⟩], ()) := rfl
  have ranWrapped : insertEach (Relation.ofBool Forest.dividesProperly) bare [4, 2] () =
      some ([⟨[.newSibling], .ok 1, bare.add (some 4) (some 0)⟩,
        ⟨[.wrapChildren], .ok 2, wrapped⟩], ()) := rfl
  have ranStacked : insertEach (Relation.ofBool Forest.dividesProperly) bare [2, 4] () =
      some ([⟨[.newSibling], .ok 1, bare.add (some 2) (some 0)⟩,
        ⟨[.descend 1, .newSibling], .ok 2, stacked⟩], ()) := rfl
  have reachFlat : Reachable flat [2, 4] := Reachable.bare.of_insertEach ranFlat (by simp)
  have reachWrapped : Reachable wrapped [4, 2] := Reachable.bare.of_insertEach ranWrapped (by simp)
  have reachStacked : Reachable stacked [2, 4] := Reachable.bare.of_insertEach ranStacked (by simp)
  have found : ((disagreement? (Relation.ofBool Forest.dividesProperly) flat).run ()).1 =
      some (.relatedSiblings 2 4) := rfl
  have passes : ((disagreement? (Relation.ofBool Forest.dividesProperly) wrapped).run ()).1 =
      none := rfl
  have passesLater : ((disagreement? (Relation.ofBool Forest.dividesProperly) stacked).run ()).1 =
      none := rfl
  have laminar : Forest.IsLaminar Forest.dividesProperly [4, 2] := by decide
  obtain ⟨-, finds, -⟩ := check_decides reachFlat Forest.dividesProperly ()
  obtain ⟨-, -, certifies⟩ := check_decides reachWrapped Forest.dividesProperly ()
  obtain ⟨above, parents⟩ := certifies Forest.dividesProperly_irreflexive
    Forest.dividesProperly_transitive laminar passes
  refine ⟨⟨reachFlat, found, fun apart => ?_⟩, reachWrapped, reachStacked, passes, passesLater,
    laminar, above, parents stacked [2, 4] reachStacked (by decide) passesLater⟩
  rcases finds _ found with ⟨outer, inner, -, -, same⟩ | ⟨-, first, second, beside, related, -⟩
  · contradiction
  · rcases related with forward | backward
    · exact absurd (apart first second beside) (by simp [forward])
    · exact absurd (apart second first beside.symm) (by simp [backward])

end LinkedForest

end Laminar
