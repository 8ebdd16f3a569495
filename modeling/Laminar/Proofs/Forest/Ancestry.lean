import Mathlib.Data.List.Pairwise
import Mathlib.Data.List.Sort
import Laminar.Proofs.Forest.Arrangement

/-!
# Ancestry in a laminar family

A family of items is laminar under a relation if any two items that contain a third are related.
In trees that a strict order arranges, what lies above an item then contains it, and nothing else
does (`Arranged.mirrors`): items of different trees are not related, because their roots would
be. So the place of an item depends on the relation and the family alone, not on the
order in which the items came (`build_mirrors`).
-/

namespace Laminar.Forest

variable {σ α : Type} {contains : α → α → Bool}

/-- Of two items of a list that both contain a third, one contains the other. -/
def IsLaminar (contains : α → α → Bool) (items : List α) : Prop :=
  items.Pairwise fun a b => ∀ c ∈ items, contains a c = true → contains b c = true →
    contains a b = true ∨ contains b a = true

/-- Whether a list of items is laminar can be computed. -/
instance (items : List α) : Decidable (IsLaminar contains items) :=
  inferInstanceAs (Decidable (List.Pairwise _ items))

namespace IsLaminar

variable {items others : List α}

/-- Some of the items of a laminar list are laminar. -/
theorem sublist (laminar : IsLaminar contains items) (some : others.Sublist items) :
    IsLaminar contains others := by
  refine (List.Pairwise.sublist some laminar).imp ?_
  exact fun related c present => related c (some.subset present)

/-- Whether items are laminar does not depend on their order. -/
theorem perm (laminar : IsLaminar contains items) (same : items.Perm others) :
    IsLaminar contains others := by
  have pairs := List.Pairwise.perm laminar same
    fun related c present second first => (related c present first second).symm
  refine pairs.imp ?_
  exact fun related c present => related c (same.mem_iff.mpr present)

end IsLaminar

/-- The place of every label is what the relation says: above it are the labels that contain it, and
each of these contains those nearer to it. -/
structure Mirrors (contains : α → α → Bool) (trees : Grove (Planted α)) : Prop where
  /-- Above a label are those that contain it. -/
  above : ∀ place ∈ trees.places, ∀ outer,
    outer ∈ place.above ↔ outer ∈ trees.labels ∧ contains outer.item place.label.item = true
  /-- A label contains all those nearer to a place below it. -/
  chain : ∀ place ∈ trees.places,
    (place.label :: place.above).Pairwise fun near far => contains far.item near.item = true

section StrictOrder

variable
  (transitive : ∀ a b c, contains a b = true → contains b c = true → contains a c = true)

include transitive

/-- The label of an arranged tree contains all other labels of the tree. -/
theorem Arranged.exists_root {trees : Grove (Planted α)} (arranged : Arranged contains trees) :
    ∀ label ∈ trees.labels, ∃ root ∈ trees.roots,
      root = label ∨ contains root.item label.item = true :=
  (arranged.families.imp fun _ _ family => family.1).exists_root
    fun a b c => transitive a.item b.item c.item

/-- In a laminar family, labels of two trees are not related if the trees' own labels are not. -/
theorem not_contains_of_apart {left right : Grove (Planted α)}
    (leftArranged : Arranged contains left) (rightArranged : Arranged contains right)
    (apart : ∀ a ∈ left.roots, ∀ b ∈ right.roots, Apart contains a b)
    (laminar : IsLaminar contains ((left.labels ++ right.labels).map Planted.item)) :
    ∀ outer ∈ left.labels, ∀ inner ∈ right.labels, ¬ contains outer.item inner.item = true := by
  intro outer upper inner lower related
  obtain ⟨a, atop, covers⟩ := leftArranged.exists_root transitive outer upper
  obtain ⟨b, btop, around⟩ := rightArranged.exists_root transitive inner lower
  obtain ⟨forward, backward⟩ := apart a atop b btop
  have reached : contains a.item inner.item = true := by
    rcases covers with rfl | covers
    · exact related
    · exact transitive _ _ _ covers related
  rcases around with rfl | around
  · exact Bool.eq_false_iff.mp forward reached
  · have pairs := (List.pairwise_append.mp (List.pairwise_map.mp laminar)).2.2
    have left_label := (Grove.roots_sublist_labels left).subset atop
    have right_label := (Grove.roots_sublist_labels right).subset btop
    have held := List.mem_map_of_mem (f := Planted.item) (List.mem_append_right left.labels lower)
    rcases pairs a left_label b right_label inner.item held reached around with ab | ba
    · exact Bool.eq_false_iff.mp forward ab
    · exact Bool.eq_false_iff.mp backward ba

variable (irreflexive : ∀ a, contains a a = false)

include irreflexive

/-- In arranged trees, no label contains that of a tree: the root above it would contain the other
root. -/
theorem Arranged.not_contains_of_mem_roots {trees : Grove (Planted α)}
    (arranged : Arranged contains trees) :
    ∀ root ∈ trees.roots, ∀ other ∈ trees.labels, contains other.item root.item = false := by
  have symmetric : Std.Symm (Apart contains) := ⟨fun _ _ apart => apart.symm⟩
  have itself : ∀ root ∈ trees.roots, Apart contains root root :=
    fun root _ => ⟨irreflexive _, irreflexive _⟩
  have apart := arranged.roots.forall_of_forall itself
  intro root present other listed
  by_contra related
  have related := eq_true_of_ne_false related
  obtain ⟨outer, top, covers⟩ := arranged.exists_root transitive other listed
  have reached : contains outer.item root.item = true := by
    rcases covers with rfl | covers
    · exact related
    · exact transitive _ _ _ covers related
  exact Bool.eq_false_iff.mp (apart top present).1 reached

/-- In arranged trees of a laminar family, every label that contains another lies above it. Labels
of different trees are not related in either direction. -/
theorem mem_above_of_contains {trees : Grove (Planted α)} (arranged : Arranged contains trees)
    (laminar : IsLaminar contains (trees.labels.map Planted.item)) (above : List (Planted α)) :
    ∀ place ∈ trees.placesBelow above, ∀ outer ∈ trees.labels,
      contains outer.item place.label.item = true → outer ∈ place.above := by
  induction trees generalizing above with
  | nil => simp [Grove.placesBelow]
  | node label below beside inner later =>
    obtain ⟨apart, ⟨children, siblings⟩, lower, right⟩ := arranged
    obtain ⟨apart, besideApart⟩ := List.pairwise_cons.mp apart
    have here : Arranged contains (.tree label below) :=
      ⟨List.pairwise_singleton _ _, ⟨children, siblings⟩, lower, trivial⟩
    have there : Arranged contains beside := ⟨besideApart, right⟩
    have split : (Grove.node label below beside).labels =
        (Grove.tree label below).labels ++ beside.labels := by
      rw [Grove.labels_tree, Grove.labels, List.cons_append]
    rw [split] at laminar ⊢
    have inBelow : IsLaminar contains (below.labels.map Planted.item) := by
      refine laminar.sublist (List.Sublist.map _ ?_)
      rw [Grove.labels_tree]
      exact (List.sublist_cons_self label _).trans (List.sublist_append_left _ _)
    have inOthers : IsLaminar contains (beside.labels.map Planted.item) :=
      laminar.sublist ((List.sublist_append_right _ _).map _)
    have across := not_contains_of_apart transitive here there (by simpa using apart) laminar
    have back := not_contains_of_apart transitive there here
      (by simpa using fun root top => (apart root top).symm)
      (laminar.perm (List.perm_append_comm.map _))
    intro place placed outer present related
    simp only [Grove.placesBelow, List.mem_cons, List.mem_append] at placed
    rcases placed with rfl | placed | placed <;> rcases List.mem_append.mp present with left | right
    · have alone := here.not_contains_of_mem_roots transitive irreflexive label (by simp)
      exact absurd related (Bool.eq_false_iff.mp (alone outer left))
    · exact absurd related (back outer right label (by simp))
    · rw [Grove.labels_tree] at left
      rcases List.mem_cons.mp left with rfl | left
      · exact (Grove.suffix_above placed).subset List.mem_cons_self
      · exact inner ⟨siblings, lower⟩ inBelow _ place placed outer left related
    · have deeper := Grove.label_mem_of_mem_placesBelow placed
      exact absurd related (back outer right place.label (by simp [deeper]))
    · exact absurd related (across outer left _ (Grove.label_mem_of_mem_placesBelow placed))
    · exact later there inOthers _ place placed outer right related

/-- Trees of a laminar family that a strict order arranges mirror it. -/
theorem Arranged.mirrors {trees : Grove (Planted α)} (arranged : Arranged contains trees)
    (laminar : IsLaminar contains (trees.labels.map Planted.item)) : Mirrors contains trees := by
  have chain : ∀ place ∈ trees.places,
      (place.label :: place.above).Pairwise fun near far => contains far.item near.item = true :=
    (arranged.families.imp fun _ _ family => family.1).chain
      fun a b c => transitive a.item b.item c.item
  refine ⟨fun place placed outer => ⟨fun higher => ⟨?_, ?_⟩, ?_⟩, chain⟩
  · exact Grove.mem_labels_of_mem_above placed outer higher
  · exact (List.pairwise_cons.mp (chain place placed)).1 outer higher
  · rintro ⟨present, related⟩
    exact mem_above_of_contains transitive irreflexive arranged laminar [] place placed outer
      present related

end StrictOrder

/-- Two chains of a strict order with the same members are the same. -/
theorem eq_of_chain (irreflexive : ∀ a, contains a a = false)
    (transitive : ∀ a b c, contains a b = true → contains b c = true → contains a c = true)
    {chain other : List α} (first : chain.Pairwise fun near far => contains far near = true)
    (second : other.Pairwise fun near far => contains far near = true)
    (members : ∀ a, a ∈ chain ↔ a ∈ other) : chain = other := by
  have irrefl : Std.Irrefl fun near far : α => contains far near = true :=
    ⟨fun a related => Bool.eq_false_iff.mp (irreflexive a) related⟩
  have antisymm : Std.Antisymm fun near far : α => contains far near = true :=
    ⟨fun a b below above =>
      absurd (transitive a b a above below) (Bool.eq_false_iff.mp (irreflexive a))⟩
  exact first.eq_of_mem_iff second members

namespace Mirrors

variable {trees others : Grove (Planted α)} {place : Grove.Place (Planted α)}

/-- A label at the top is one that no label contains. -/
theorem parent?_eq_none_iff (mirrors : Mirrors contains trees) (placed : place ∈ trees.places) :
    place.parent? = none ↔
      ∀ outer ∈ trees.labels, contains outer.item place.label.item = false := by
  rw [Grove.Place.parent?, List.head?_eq_none_iff, List.eq_nil_iff_forall_not_mem]
  simp only [mirrors.above place placed, not_and, Bool.not_eq_true]

/-- The label just above another contains it, and all others that contain it contain that one. -/
theorem tightest (mirrors : Mirrors contains trees) (placed : place ∈ trees.places)
    {parent : Planted α} (just_above : place.parent? = some parent) :
    contains parent.item place.label.item = true ∧
      ∀ outer ∈ trees.labels, contains outer.item place.label.item = true →
        outer = parent ∨ contains outer.item parent.item = true := by
  obtain ⟨farther, split⟩ := List.head?_eq_some_iff.mp just_above
  have chain := mirrors.chain place placed
  rw [split] at chain
  obtain ⟨covers, chain⟩ := List.pairwise_cons.mp chain
  refine ⟨covers parent List.mem_cons_self, ?_⟩
  intro outer present related
  have higher := (mirrors.above place placed outer).mpr ⟨present, related⟩
  rw [split] at higher
  rcases List.mem_cons.mp higher with same | far
  · exact .inl same
  · exact .inr ((List.pairwise_cons.mp chain).1 outer far)

/-- The items above an item are those that contain it. -/
theorem mem_map_item_above (mirrors : Mirrors contains trees) (placed : place ∈ trees.places)
    (outer : α) :
    outer ∈ place.above.map Planted.item ↔
      outer ∈ trees.labels.map Planted.item ∧ contains outer place.label.item = true := by
  simp only [List.mem_map, mirrors.above place placed]
  constructor
  · rintro ⟨label, ⟨present, related⟩, rfl⟩
    exact ⟨⟨label, present, rfl⟩, related⟩
  · rintro ⟨⟨label, present, rfl⟩, related⟩
    exact ⟨label, ⟨present, related⟩, rfl⟩

/-- An item above a place contains those nearer to the place. -/
theorem chain_item_above (mirrors : Mirrors contains trees) (placed : place ∈ trees.places) :
    (place.above.map Planted.item).Pairwise fun near far => contains far near = true :=
  List.pairwise_map.mpr (List.pairwise_cons.mp (mirrors.chain place placed)).2

/-- Trees with the same items that mirror one strict order have the same items above an item, in
the same order. -/
theorem map_item_above_eq (irreflexive : ∀ a, contains a a = false)
    (transitive : ∀ a b c, contains a b = true → contains b c = true → contains a c = true)
    (mirrors : Mirrors contains trees) (mirrored : Mirrors contains others)
    (same : (others.labels.map Planted.item).Perm (trees.labels.map Planted.item))
    (placed : place ∈ trees.places) {other : Grove.Place (Planted α)}
    (otherPlaced : other ∈ others.places) (equal : other.label.item = place.label.item) :
    other.above.map Planted.item = place.above.map Planted.item := by
  refine eq_of_chain irreflexive transitive (mirrored.chain_item_above otherPlaced)
    (mirrors.chain_item_above placed) fun outer => ?_
  rw [mirrors.mem_map_item_above placed, mirrored.mem_map_item_above otherPlaced, same.mem_iff,
    equal]

end Mirrors

/-- A forest that is built by a strict order from a laminar family mirrors it. -/
theorem yields_build_mirrors (irreflexive : ∀ a, contains a a = false)
    (transitive : ∀ a b c, contains a b = true → contains b c = true → contains a c = true)
    {items : List α} (laminar : IsLaminar contains items) :
    Yields (build (σ := σ) (Relation.ofBool contains) items) fun result =>
      ∃ forest, result = .ok forest ∧ forest.toList.Perm (planting 0 items) ∧
        Mirrors contains forest.trees := by
  intro state
  obtain ⟨forest, built, planted, arranged⟩ := yields_build_arranged transitive items state
  refine ⟨forest, built, planted, arranged.mirrors transitive irreflexive ?_⟩
  have same := planted.map Planted.item
  rw [map_item_planting] at same
  exact laminar.perm same.symm

/-- The forest that a strict order builds from a laminar family mirrors the family. Every item has a
node of its own, numbered by its turn. Above a node are the nodes of the items that contain its
item, and no others. Just above it is the tightest of these, if there is one. A forest of the same
items that came in another order has the same items above each item, in the same order. -/
theorem build_mirrors (irreflexive : ∀ a, contains a a = false)
    (transitive : ∀ a b c, contains a b = true → contains b c = true → contains a c = true)
    {items : List α} (laminar : IsLaminar contains items) (state : σ) :
    ∃ forest, ((build (Relation.ofBool contains) items).run state).1 = .ok forest ∧
      forest.toList.Perm (planting 0 items) ∧
      (∀ place ∈ forest.trees.places,
        (∀ outer ∈ planting 0 items,
          outer ∈ place.above ↔ contains outer.item place.label.item = true) ∧
        (place.parent? = none ↔ ∀ outer ∈ items, contains outer place.label.item = false) ∧
        ∀ parent, place.parent? = some parent →
          contains parent.item place.label.item = true ∧
            ∀ outer ∈ planting 0 items, outer ≠ parent →
              contains outer.item place.label.item = true →
                contains outer.item parent.item = true) ∧
      ∀ others : List α, others.Perm items →
        ∃ other, ((build (Relation.ofBool contains) others).run state).1 = .ok other ∧
          other.toList.Perm (planting 0 others) ∧
          ∀ place ∈ forest.trees.places, ∀ moved ∈ other.trees.places,
            moved.label.item = place.label.item →
              moved.above.map Planted.item = place.above.map Planted.item ∧
                moved.parent?.map Planted.item = place.parent?.map Planted.item := by
  obtain ⟨forest, built, planted, mirrors⟩ :=
    yields_build_mirrors irreflexive transitive laminar state
  have items_perm : (forest.toList.map Planted.item).Perm items := by
    simpa using planted.map Planted.item
  refine ⟨forest, built, planted, fun place placed => ⟨?_, ?_, ?_⟩, ?_⟩
  · intro outer present
    rw [mirrors.above place placed]
    exact and_iff_right (planted.mem_iff.mpr present)
  · rw [mirrors.parent?_eq_none_iff placed]
    simp only [← items_perm.mem_iff, forest.toList.forall_mem_map]
    rfl
  · intro parent just_above
    obtain ⟨covers, others⟩ := mirrors.tightest placed just_above
    refine ⟨covers, fun outer present different related => ?_⟩
    exact (others outer (planted.mem_iff.mpr present) related).resolve_left different
  · intro others same
    obtain ⟨other, otherBuilt, otherPlanted, mirrored⟩ :=
      yields_build_mirrors irreflexive transitive (laminar.perm same.symm) state
    have others_perm : (other.toList.map Planted.item).Perm others := by
      simpa using otherPlanted.map Planted.item
    refine ⟨other, otherBuilt, otherPlanted, fun place placed moved otherPlaced equal => ?_⟩
    have above := mirrors.map_item_above_eq irreflexive transitive mirrored
      (others_perm.trans (same.trans items_perm.symm)) placed otherPlaced equal
    refine ⟨above, ?_⟩
    rw [Grove.Place.parent?, Grove.Place.parent?, ← List.head?_map, ← List.head?_map, above]

/-- One number divides another and is a different one. -/
def dividesProperly (a b : Nat) : Bool :=
  decide (a ∣ b ∧ a ≠ b)

/-- No number divides itself properly. -/
theorem dividesProperly_irreflexive (a : Nat) : dividesProperly a a = false := by
  simp [dividesProperly]

/-- Proper division is transitive. -/
theorem dividesProperly_transitive (a b c : Nat) (ab : dividesProperly a b = true)
    (bc : dividesProperly b c = true) : dividesProperly a c = true := by
  simp only [dividesProperly, decide_eq_true_eq] at ab bc ⊢
  refine ⟨Nat.dvd_trans ab.1 bc.1, ?_⟩
  rintro rfl
  exact ab.2 (Nat.dvd_antisymm ab.1 bc.1)

/-- Powers of two and of three that came as 8, 27, 2, 3 and 4, each below the lower ones. -/
def powers : Forest Nat :=
  ⟨.node ⟨3, 2⟩ (.tree ⟨5, 4⟩ (.tree ⟨1, 8⟩ .nil)) (.tree ⟨4, 3⟩ (.tree ⟨2, 27⟩ .nil)), 5⟩

/-- The lower powers came later, and the middle one last. -/
theorem build_mirrors_powers :
    IsLaminar dividesProperly [8, 27, 2, 3, 4] ∧
      ((build (Relation.ofBool dividesProperly) [8, 27, 2, 3, 4]).run ()).1 = .ok powers ∧
      (∀ place ∈ powers.trees.places, ∀ outer ∈ planting 0 [8, 27, 2, 3, 4],
        outer ∈ place.above ↔ dividesProperly outer.item place.label.item = true) ∧
      ∃ other, ((build (Relation.ofBool dividesProperly) [2, 3, 4, 8, 27]).run ()).1 = .ok other ∧
        ∀ place ∈ powers.trees.places, ∀ moved ∈ other.trees.places,
          moved.label.item = place.label.item →
            moved.above.map Planted.item = place.above.map Planted.item := by
  have laminar : IsLaminar dividesProperly [8, 27, 2, 3, 4] := by decide
  have computed : ((build (Relation.ofBool dividesProperly) [8, 27, 2, 3, 4]).run ()).1 =
      .ok powers := rfl
  obtain ⟨forest, built, -, places, orders⟩ :=
    build_mirrors dividesProperly_irreflexive dividesProperly_transitive laminar ()
  obtain rfl : forest = powers := Except.ok.inj (built.symm.trans computed)
  obtain ⟨other, otherBuilt, -, same⟩ := orders [2, 3, 4, 8, 27] (by decide)
  refine ⟨laminar, computed, fun place placed => (places place placed).1, other, otherBuilt, ?_⟩
  exact fun place placed moved otherPlaced equal => (same place placed moved otherPlaced equal).1

end Laminar.Forest
