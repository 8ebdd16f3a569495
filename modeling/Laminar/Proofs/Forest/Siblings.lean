import Laminar.Proofs.Forest.Alike
import Laminar.Proofs.Forest.Ancestry
import Laminar.Proofs.Grove.Ordered

/-!
# The order of siblings

By a relation that always answers alike, an item takes over some of the siblings, or none, and
comes last among the others. Both lists keep their order, so siblings are always in the order in
which they came, whatever the answers are (`insertEach_ordered`). Only an item that wraps the node
that its walk came down to would come before older siblings.

The place of an item in a laminar family depends on the relation alone, so with the order of the
siblings the nested form is the only one that there is (`Nests.unique`).
-/

namespace Laminar

namespace Forest

variable {σ α : Type}

/-- One item came before another. -/
def Earlier (first second : Planted α) : Prop :=
  first.slot < second.slot

/-- No item came before itself. -/
instance : Std.Irrefl (Earlier (α := α)) :=
  ⟨fun planted => Nat.lt_irrefl planted.slot⟩

/-- Of two items only one came before the other. -/
instance : Std.Antisymm (Earlier (α := α)) :=
  ⟨fun _ _ before after => absurd after (Nat.lt_asymm before)⟩

/-- Answers that never contradict each other, and a new item that comes after all others, keep
siblings in the order in which they came. -/
theorem Lands.ordered {answers : α → α → Bool → Prop}
    (alike : ∀ a b, answers a b true → ¬ answers a b false) {new : Planted α}
    {trees grown : Grove (Planted α)} {steps : List Step}
    (lands : Lands answers new trees steps grown) (ordered : trees.Ordered Earlier)
    (last : ∀ planted ∈ trees.labels, Earlier planted new) : grown.Ordered Earlier := by
  have last_root : ∀ root ∈ trees.roots, Earlier root new :=
    fun root top => last root ((Grove.roots_sublist_labels trees).subset top)
  induction lands with
  | @wrapChildren trees taken kept separated some =>
    obtain ⟨tops, families⟩ := ordered
    obtain ⟨keptFamilies, takenFamilies⟩ := separated.families.mp families
    have keeps : kept.Ordered Earlier := ⟨tops.sublist separated.kept_sublist, keptFamilies⟩
    have takes : taken.Ordered Earlier := ⟨tops.sublist separated.taken_sublist, takenFamilies⟩
    exact keeps.append_tree takes fun root keep =>
      last_root root (separated.kept_sublist.subset keep)
  | @wrapNode left child below right refused _ _ wraps =>
    exact absurd (refused child (by simp [Grove.roots])) (alike _ _ wraps)
  | @descend left child below right grown steps _ _ _ _ deeper =>
    obtain ⟨tops, families⟩ := ordered
    obtain ⟨before, children, lower, after⟩ := (Grove.families_append _ _ _).mp families
    have older : ∀ planted ∈ below.labels, Earlier planted new :=
      fun planted present => last planted (by simp [Grove.labels, present])
    have inner := deeper ⟨children, lower⟩ older fun root top =>
      older root ((Grove.roots_sublist_labels below).subset top)
    constructor
    · rw [Grove.roots_append] at tops ⊢
      exact tops
    · rw [Grove.families_append]
      exact ⟨before, inner.roots, inner.families, after⟩
  | newSibling => exact ordered.append_tree .nil last_root

/-- Items that land one after another keep siblings in the order in which they came. -/
theorem Grows.ordered {answers : α → α → Bool → Prop}
    (alike : ∀ a b, answers a b true → ¬ answers a b false) {forest last : Forest α}
    {items : List α} (grows : Grows answers forest items last)
    (ordered : forest.trees.Ordered Earlier)
    (counted : ∀ planted ∈ forest.toList, planted.slot ≤ forest.count) :
    last.trees.Ordered Earlier := by
  induction grows with
  | nil => exact ordered
  | @cons forest last item rest steps trees lands _ later =>
    have older : ∀ planted ∈ forest.trees.labels, Earlier planted ⟨forest.count + 1, item⟩ :=
      fun planted present => Nat.lt_succ_of_le (counted planted present)
    refine later (lands.ordered alike ordered older) fun planted present => ?_
    rcases List.mem_cons.mp (lands.labels_perm.mem_iff.mp present) with rfl | old
    · exact Nat.le_refl _
    · exact Nat.le_of_lt (older planted old)

/-- A forest that is built by a relation that always answers alike has siblings in the order in
which they came. -/
theorem yields_build_ordered (answer : α → α → Bool) (items : List α) :
    Yields (build (σ := σ) (Relation.ofBool answer) items) fun result =>
      ∃ forest, result = .ok forest ∧ forest.trees.Ordered Earlier := by
  intro state
  obtain ⟨forest, built, grows⟩ := yields_insertAll yields_ofBool empty items state
  have alike (a b : α) (yes : answer a b = true) : ¬ answer a b = false :=
    fun no => absurd (yes.symm.trans no) (by decide)
  refine ⟨forest, built, grows.ordered alike ?_ ?_⟩
  · exact .nil
  · simp [empty, toList, Grove.labels]

/-- Trees of items that came one after another. Siblings are in the order in which they came, and
above an item are the items that contain it. -/
structure Nests (contains : α → α → Bool) (items : List α) (trees : Grove (Planted α)) : Prop where
  /-- Every item is there, in the slot of its turn. -/
  planted : trees.labels.Perm (planting 0 items)
  /-- Siblings are in order. -/
  ordered : trees.Ordered Earlier
  /-- Above a label are those that contain it. -/
  above : ∀ place ∈ trees.places, ∀ outer,
    outer ∈ place.above ↔ outer ∈ trees.labels ∧ contains outer.item place.label.item = true

/-- There are no two nested forms of the same items. -/
theorem Nests.unique {contains : α → α → Bool} {items : List α} {trees others : Grove (Planted α)}
    (nests : Nests contains items trees) (again : Nests contains items others) :
    trees = others := by
  have members : ∀ label, label ∈ trees.labels ↔ label ∈ others.labels :=
    fun _ => nests.planted.mem_iff.trans again.planted.mem_iff.symm
  refine nests.ordered.eq_of_above again.ordered
    (nests.planted.nodup_iff.mpr (nodup_planting 0 items))
    (again.planted.nodup_iff.mpr (nodup_planting 0 items)) members ?_
  intro place placed other otherPlaced same outer
  rw [nests.above place placed, again.above other otherPlaced, members, same]

end Forest

namespace LinkedForest

open Forest (Planted Earlier Nests)

variable {σ α : Type} {store : LinkedForest α} {forest : Forest α} {items : List α}
  (represents : Represents store forest items)

include represents

/-- If siblings are in the order in which they came, all lists of children are. -/
theorem Represents.children_ordered (ordered : forest.trees.Ordered Earlier) (owner : Slot) :
    (store.children owner).Pairwise (· < ·) := by
  rcases represents.children_cases owner with ⟨-, children⟩ | ⟨place, placed, -, children⟩ | none
  · rw [children]
    exact List.pairwise_map.mpr ordered.roots
  · rw [children]
    exact List.pairwise_map.mpr ((Grove.families_iff _ _).mp ordered.families place placed)
  · rw [none]
    exact List.Pairwise.nil

omit represents

/-- By a relation that always answers alike, whatever its answers are, every item has a place, in
the next slot, and all children of a node are at all times in the order of their slots. Of a laminar
family and a strict order, the forest at each time is the only one of its items with this order in
which exactly the items that contain an item are above it. What the linked forest shows at each time
is what a build yields, and so it is in order. -/
theorem insertEach_ordered (answer : α → α → Bool) (items : List α) (state : σ) :
    ∃ attempts ended,
      insertEach (Relation.ofBool answer) bare items state = some (attempts, ended) ∧
      attempts.length = items.length ∧
      (∀ (turn : Nat) (attempt : Attempt α), attempts[turn]? = some attempt →
        attempt.result = .ok (1 + turn)) ∧
      ∀ turn store, (bare :: attempts.map Attempt.forest)[turn]? = some store →
        (∀ owner, (store.children owner).Pairwise (· < ·)) ∧
        ∃ forest,
          ((Forest.build (Relation.ofBool answer) (items.take turn)).run state).1 = .ok forest ∧
          Represents store forest (items.take turn) ∧
          ((∀ a, answer a a = false) →
            (∀ a b c, answer a b = true → answer b c = true → answer a c = true) →
            Forest.IsLaminar answer (items.take turn) →
            ∀ trees, Nests answer (items.take turn) trees ↔ trees = forest.trees) := by
  obtain ⟨attempts, _, ended, ran, -, -, length, shows, each⟩ :=
    represents_bare.insertEach_shows answer items state
  refine ⟨attempts, ended, ran, length, fun turn attempt listed => ?_, fun turn store listed => ?_⟩
  · obtain ⟨_, -, placed, -⟩ := each turn attempt listed
    exact placed
  obtain ⟨forest, built, represents⟩ := shows turn store listed
  rw [List.nil_append] at represents
  obtain ⟨same, again, ordered⟩ := Forest.yields_build_ordered answer (items.take turn) state
  obtain rfl : same = forest := Except.ok.inj (again.symm.trans built)
  refine ⟨represents.children_ordered ordered, same, built, represents, ?_⟩
  intro irreflexive transitive laminar trees
  obtain ⟨other, rebuilt, -, mirrors⟩ :=
    Forest.yields_build_mirrors irreflexive transitive laminar state
  obtain rfl : other = same := Except.ok.inj (rebuilt.symm.trans built)
  have nests : Nests answer (items.take turn) other.trees :=
    ⟨represents.planted, ordered, mirrors.above⟩
  constructor
  · exact fun form => form.unique nests
  · rintro rfl
    exact nests

/-- Powers of two and of three are nested in one way only. -/
theorem insertEach_ordered_powers :
    ∃ attempts ended store,
      insertEach (Relation.ofBool Forest.dividesProperly) bare [8, 27, 2, 3, 4] () =
        some (attempts, ended) ∧
      (bare :: attempts.map Attempt.forest)[5]? = some store ∧
      (∀ owner, (store.children owner).Pairwise (· < ·)) ∧
      Represents store Forest.powers [8, 27, 2, 3, 4] ∧
      Forest.IsLaminar Forest.dividesProperly [8, 27, 2, 3, 4] ∧
      ∀ trees,
        Nests Forest.dividesProperly [8, 27, 2, 3, 4] trees ↔ trees = Forest.powers.trees := by
  obtain ⟨attempts, ended, ran, length, -, each⟩ :=
    insertEach_ordered Forest.dividesProperly [8, 27, 2, 3, 4] ()
  have listed : 5 < (bare :: attempts.map Attempt.forest).length := by simp [length]
  obtain ⟨ordered, forest, built, represents, nests⟩ := each 5 _ (List.getElem?_eq_getElem listed)
  obtain rfl : forest = Forest.powers := Except.ok.inj (built.symm.trans rfl)
  have laminar : Forest.IsLaminar Forest.dividesProperly [8, 27, 2, 3, 4] := by decide
  exact ⟨attempts, ended, _, ran, List.getElem?_eq_getElem listed, ordered, represents, laminar,
    nests Forest.dividesProperly_irreflexive Forest.dividesProperly_transitive laminar⟩

end LinkedForest

end Laminar
