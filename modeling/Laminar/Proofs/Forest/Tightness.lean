import Laminar.Proofs.Forest.Ancestry

/-!
# Tightness without laminarity

If two items that contain a third need not be related, the place of the third depends on the order
in which the items came. In trees that a strict order arranges it is still tight: no label
contains that of a tree, for the tree of such a label would have a root that contains another root
(`Arranged.not_contains_of_mem_roots`). The same holds below each place, so no label next to or
below an item could take it over (`build_tight`), and the items at the top are those that no item
contains, whatever the order was.
-/

namespace Laminar.Forest

open scoped List

variable {σ α : Type} {contains : α → α → Bool}

/-- None of some items contains an item. -/
def IsMaximal (contains : α → α → Bool) (items : List α) (item : α) : Prop :=
  ∀ outer ∈ items, contains outer item = false

/-- Whether an item is maximal among others can be computed. -/
instance (items : List α) (item : α) : Decidable (IsMaximal contains items item) :=
  inferInstanceAs (Decidable (∀ outer ∈ items, contains outer item = false))

/-- Which items are maximal depends on the members of the list alone. -/
theorem IsMaximal.congr {items others : List α} (same : ∀ item, item ∈ items ↔ item ∈ others)
    (item : α) : IsMaximal contains items item ↔ IsMaximal contains others item :=
  forall_congr' fun outer => imp_congr_left (same outer)

namespace Arranged

variable {trees : Grove (Planted α)} (arranged : Arranged contains trees)

include arranged

/-- What is below a place is arranged. -/
theorem below : ∀ place ∈ trees.places, Arranged contains place.below := by
  intro place placed
  obtain ⟨-, siblings⟩ := (Grove.families_iff _ _).mp arranged.families place placed
  exact ⟨siblings, arranged.families.below place placed⟩

variable (irreflexive : ∀ a, contains a a = false)
  (transitive : ∀ a b c, contains a b = true → contains b c = true → contains a c = true)

include irreflexive transitive

/-- The labels of the trees are those that no label contains. -/
theorem mem_roots_iff {label : Planted α} (present : label ∈ trees.labels) :
    label ∈ trees.roots ↔ IsMaximal contains (trees.labels.map Planted.item) label.item := by
  rw [IsMaximal, List.forall_mem_map]
  constructor
  · exact arranged.not_contains_of_mem_roots transitive irreflexive label
  · intro maximal
    obtain ⟨root, top, covers⟩ := arranged.exists_root transitive label present
    rcases covers with rfl | covers
    · exact top
    · exact absurd (maximal root ((Grove.roots_sublist_labels trees).subset top)) (by simp [covers])

/-- At the top are the items that no item contains, as often as they occur. -/
theorem map_item_roots_perm {items : List α} (planted : trees.labels.Perm (planting 0 items)) :
    (trees.roots.map Planted.item).Perm
      (items.filter fun item => IsMaximal contains items item) := by
  have same : ∀ item, item ∈ trees.labels.map Planted.item ↔ item ∈ items := by
    have listed := planted.map Planted.item
    rw [map_item_planting] at listed
    exact fun item => listed.mem_iff
  have distinct := planted.nodup_iff.mpr (nodup_planting 0 items)
  have roots : trees.roots.Perm
      ((planting 0 items).filter fun label => IsMaximal contains items label.item) := by
    refine (List.perm_ext_iff_of_nodup (distinct.sublist (Grove.roots_sublist_labels trees))
      ((nodup_planting 0 items).filter _)).mpr fun label => ?_
    rw [List.mem_filter, decide_eq_true_eq, ← planted.mem_iff, ← IsMaximal.congr same]
    constructor
    · intro top
      have present := (Grove.roots_sublist_labels trees).subset top
      exact ⟨present, (arranged.mem_roots_iff irreflexive transitive present).mp top⟩
    · rintro ⟨present, maximal⟩
      exact (arranged.mem_roots_iff irreflexive transitive present).mpr maximal
  calc trees.roots.map Planted.item
    _ ~ ((planting 0 items).filter fun label => IsMaximal contains items label.item).map
        Planted.item := roots.map Planted.item
    _ = ((planting 0 items).map Planted.item).filter fun item => IsMaximal contains items item := by
        rw [List.filter_map]
        rfl
    _ = items.filter fun item => IsMaximal contains items item := by rw [map_item_planting]

end Arranged

/-- In the forest that a strict order builds, laminar or not, an item is not contained by any other
item that is below the same item as it, or below it. So the items at the top are those that no item
contains, and these are the same in whatever order the items come. -/
theorem build_tight (irreflexive : ∀ a, contains a a = false)
    (transitive : ∀ a b c, contains a b = true → contains b c = true → contains a c = true)
    (items : List α) (state : σ) :
    ∃ forest, ((build (Relation.ofBool contains) items).run state).1 = .ok forest ∧
      forest.toList.Perm (planting 0 items) ∧
      (∀ owner ∈ forest.trees.places, ∀ child ∈ owner.children, ∀ other ∈ owner.below.labels,
        contains other.item child.item = false) ∧
      (∀ child ∈ forest.trees.roots, ∀ other ∈ planting 0 items,
        contains other.item child.item = false) ∧
      (∀ planted ∈ planting 0 items,
        planted ∈ forest.trees.roots ↔ IsMaximal contains items planted.item) ∧
      ∀ others : List α, others.Perm items →
        ∃ other, ((build (Relation.ofBool contains) others).run state).1 = .ok other ∧
          (other.trees.roots.map Planted.item).Perm
            (items.filter fun item => IsMaximal contains items item) := by
  obtain ⟨forest, built, planted, arranged⟩ := yields_build_arranged transitive items state
  refine ⟨forest, built, planted, fun owner placed => ?_, fun child top other listed => ?_,
    fun label listed => ?_, fun others same => ?_⟩
  · exact (arranged.below owner placed).not_contains_of_mem_roots transitive irreflexive
  · exact arranged.not_contains_of_mem_roots transitive irreflexive child top other
      (planted.mem_iff.mpr listed)
  · have items_perm : (forest.toList.map Planted.item).Perm items := by
      simpa using planted.map Planted.item
    rw [arranged.mem_roots_iff irreflexive transitive (planted.mem_iff.mpr listed)]
    exact IsMaximal.congr (fun _ => items_perm.mem_iff) label.item
  · obtain ⟨other, otherBuilt, otherPlanted, otherArranged⟩ :=
      yields_build_arranged transitive others state
    refine ⟨other, otherBuilt, ?_⟩
    have tops := otherArranged.map_item_roots_perm irreflexive transitive otherPlanted
    simp only [IsMaximal.congr fun _ => same.mem_iff] at tops
    exact tops.trans (same.filter _)

/-- Multiples that came as 12, 4, 6, 2 and 3. Twelve is below four only, and six below two only. -/
def multiples : Forest Nat :=
  ⟨.node ⟨4, 2⟩ (.node ⟨2, 4⟩ (.tree ⟨1, 12⟩ .nil) (.tree ⟨3, 6⟩ .nil)) (.tree ⟨5, 3⟩ .nil), 5⟩

/-- Proper divisors of one number need not divide each other. -/
theorem build_tight_multiples :
    ¬ IsLaminar dividesProperly [12, 4, 6, 2, 3] ∧
      ((build (Relation.ofBool dividesProperly) [12, 4, 6, 2, 3]).run ()).1 = .ok multiples ∧
      (∀ owner ∈ multiples.trees.places, ∀ child ∈ owner.children,
        ∀ other ∈ owner.below.labels, dividesProperly other.item child.item = false) ∧
      ∃ other, ((build (Relation.ofBool dividesProperly) [3, 2, 6, 4, 12]).run ()).1 = .ok other ∧
        (other.trees.roots.map Planted.item).Perm [2, 3] := by
  have computed : ((build (Relation.ofBool dividesProperly) [12, 4, 6, 2, 3]).run ()).1 =
      .ok multiples := rfl
  obtain ⟨forest, built, -, tight, -, -, orders⟩ :=
    build_tight dividesProperly_irreflexive dividesProperly_transitive [12, 4, 6, 2, 3] ()
  obtain rfl : forest = multiples := Except.ok.inj (built.symm.trans computed)
  obtain ⟨other, otherBuilt, tops⟩ := orders [3, 2, 6, 4, 12] (by decide)
  exact ⟨by decide, computed, tight, other, otherBuilt, tops⟩

end Laminar.Forest
