import Laminar.Proofs.Forest.Landing

/-!
# Forests of a transitive relation

If every item contains its children and no two siblings are related, the forest is arranged by the
relation. One landing keeps a grove arranged: an item that takes some trees over is not contained
by a tree that is kept, since that one would then contain the taken trees as well. So every
forest that a transitive relation builds is arranged, and no check of it finds a misfit.
-/

namespace Laminar.Forest

variable {σ α : Type} {contains : α → α → Bool}

/-- Neither of two items contains the other. -/
def Apart (contains : α → α → Bool) (first second : Planted α) : Prop :=
  contains first.item second.item = false ∧ contains second.item first.item = false

/-- Two nodes stand apart in either order. -/
theorem Apart.symm {first second : Planted α} (apart : Apart contains first second) :
    Apart contains second first :=
  ⟨apart.2, apart.1⟩

/-- The labels of the trees are apart, and every label contains its children, which are apart. -/
structure Arranged (contains : α → α → Bool) (trees : Grove (Planted α)) : Prop where
  /-- No two trees have related labels. -/
  roots : trees.roots.Pairwise (Apart contains)
  /-- Every label contains its children, and no two of them are related. -/
  families : trees.Families fun owner children =>
    (∀ child ∈ children, contains owner.item child.item = true) ∧
      children.Pairwise (Apart contains)

/-! ## What a landing keeps -/

namespace Lands

variable {answers : α → α → Bool → Prop} {new : Planted α} {trees grown : Grove (Planted α)}
  {steps : List Step}

/-- The new item is added to the labels. -/
theorem labels_perm (lands : Lands answers new trees steps grown) :
    grown.labels.Perm (new :: trees.labels) := by
  induction lands with
  | wrapChildren separated _ =>
    simp only [Grove.labels_append, Grove.tree, Grove.labels, List.append_nil]
    exact List.perm_middle.trans (separated.labels_perm.symm.cons new)
  | wrapNode =>
    simp only [Grove.labels_append, Grove.tree, Grove.labels, List.append_nil, List.cons_append]
    exact List.perm_middle
  | @descend left child below right grown steps _ _ _ _ deeper =>
    simp only [Grove.labels_append, Grove.labels]
    have inner : (child :: (grown.labels ++ right.labels)).Perm
        (new :: child :: (below.labels ++ right.labels)) :=
      ((deeper.append_right right.labels).cons child).trans (List.Perm.swap _ _ _)
    exact (inner.append_left left.labels).trans List.perm_middle
  | newSibling =>
    simp only [Grove.labels_append, Grove.tree, Grove.labels, List.append_nil]
    exact List.perm_append_singleton _ _

/-- At the top, no label but the new one is added. -/
theorem roots_subset (lands : Lands answers new trees steps grown) :
    ∀ root ∈ grown.roots, root = new ∨ root ∈ trees.roots := by
  cases lands with
  | wrapChildren separated _ =>
    intro root top
    rw [separated.roots_perm.mem_iff]
    simp only [Grove.roots_append, Grove.tree, Grove.roots, List.mem_append,
      List.mem_singleton] at top ⊢
    tauto
  | wrapNode | descend | newSibling =>
    intro root top
    simp only [Grove.roots_append, Grove.tree, Grove.roots, List.mem_append, List.mem_cons,
      List.not_mem_nil] at top ⊢
    tauto

/-- A tree that is kept is apart from the item that takes others over: if it contained the item,
it would contain those as well. -/
theorem apart_of_separated
    (transitive : ∀ a b c, contains a b = true → contains b c = true → contains a c = true)
    {taken kept : Grove (Planted α)}
    (separated : trees.Separated (fun child => (contains new.item child.item = ·)) taken kept)
    (some : taken ≠ .nil) (across : ∀ a ∈ kept.roots, ∀ b ∈ taken.roots, Apart contains a b) :
    ∀ root ∈ kept.roots, Apart contains root new := by
  intro root keep
  refine ⟨?_, separated.kept_roots root keep⟩
  have some_root : taken.roots ≠ [] := by
    rwa [Ne, ← Grove.isEmpty_iff_roots, Grove.isEmpty_iff_eq_nil]
  obtain ⟨label, take⟩ := List.exists_mem_of_ne_nil _ some_root
  by_contra contained
  have reached := transitive _ _ _ (eq_true_of_ne_false contained)
    (separated.taken_roots label take)
  rw [(across root keep label take).1] at reached
  contradiction

/-- Of a transitive relation, a landing keeps the trees arranged. -/
theorem arranged
    (transitive : ∀ a b c, contains a b = true → contains b c = true → contains a c = true)
    (lands : Lands (fun a b => (contains a b = ·)) new trees steps grown)
    (before : Arranged contains trees) : Arranged contains grown := by
  induction lands with
  | wrapChildren separated some =>
    obtain ⟨apart, families⟩ := before
    rw [separated.families] at families
    rw [separated.roots_perm.pairwise_iff Apart.symm, List.pairwise_append] at apart
    obtain ⟨keptApart, takenApart, across⟩ := apart
    constructor
    · rw [Grove.roots_append]
      refine List.pairwise_append.mpr ⟨keptApart, List.pairwise_singleton _ _, ?_⟩
      intro root keep wrapper last
      rw [List.mem_singleton.mp last]
      exact apart_of_separated transitive separated some across root keep
    · rw [Grove.families_append]
      exact ⟨families.1, ⟨separated.taken_roots, takenApart⟩, families.2, trivial⟩
  | @wrapNode left child below right refused _ _ wraps =>
    have denied := refused child (by simp [Grove.roots])
    exact absurd (wraps.symm.trans denied) (by decide)
  | @descend left child below right grown steps refused passed held deeper inner =>
    obtain ⟨apart, families⟩ := before
    rw [Grove.families_append] at families
    obtain ⟨before, ⟨contained, belowApart⟩, lower, after⟩ := families
    obtain ⟨grownApart, grownFamilies⟩ := inner ⟨belowApart, lower⟩
    constructor
    · rw [Grove.roots_append] at apart ⊢
      exact apart
    · rw [Grove.families_append]
      refine ⟨before, ⟨?_, grownApart⟩, grownFamilies, after⟩
      intro root top
      cases deeper.roots_subset root top with
      | inl same => rw [same]; exact held
      | inr old => exact contained root old
  | newSibling refused passed =>
    obtain ⟨apart, families⟩ := before
    constructor
    · rw [Grove.roots_append]
      refine List.pairwise_append.mpr ⟨apart, List.pairwise_singleton _ _, ?_⟩
      intro root old sibling last
      rw [List.mem_singleton.mp last]
      exact ⟨passed root old, refused root old⟩
    · rw [Grove.families_append]
      exact ⟨families, ⟨by simp [Grove.roots], List.Pairwise.nil⟩, trivial, trivial⟩

end Lands

/-- The items with the slots that they get if they come in this order after `count` others. -/
def planting (count : Nat) (items : List α) : List (Planted α) :=
  (items.zipIdx (count + 1)).map fun numbered => ⟨numbered.2, numbered.1⟩

/-- Planting keeps the items in their order. -/
@[simp]
theorem map_item_planting (count : Nat) (items : List α) :
    (planting count items).map Planted.item = items := by
  rw [planting, List.map_map]
  exact List.zipIdx_map_fst (count + 1) items

/-- The slots count up. -/
@[simp]
theorem map_slot_planting (count : Nat) (items : List α) :
    (planting count items).map Planted.slot = List.range' (count + 1) items.length := by
  rw [planting, List.map_map]
  exact List.zipIdx_map_snd (count + 1) items

/-- No node is planted twice. -/
theorem nodup_planting (count : Nat) (items : List α) : (planting count items).Nodup := by
  have slots : ((planting count items).map Planted.slot).Nodup := by
    rw [map_slot_planting]
    exact List.nodup_range'
  exact (List.pairwise_map.mp slots).imp fun different same => different (congrArg _ same)

/-- An item has the slot of its turn. -/
theorem getElem?_planting (count : Nat) (items : List α) (turn : Nat) :
    (planting count items)[turn]? = items[turn]?.map fun item => ⟨count + 1 + turn, item⟩ := by
  rw [planting, List.getElem?_map, List.getElem?_zipIdx, Option.map_map]
  rfl

/-- The planted items are those of the turns. -/
theorem mem_planting {items : List α} {turn : Nat} {item : α} (found : items[turn]? = some item) :
    ⟨turn + 1, item⟩ ∈ planting 0 items := by
  refine List.mem_of_getElem? (i := turn) ?_
  rw [getElem?_planting, found, Option.map_some, Nat.zero_add, Nat.add_comm]

/-- The items are added to those of the forest, each with the slot of its turn. -/
theorem Grows.toList_perm {answers : α → α → Bool → Prop} {forest last : Forest α} {items : List α}
    (grows : Grows answers forest items last) :
    last.toList.Perm (planting forest.count items ++ forest.toList) := by
  induction grows with
  | nil => exact List.Perm.refl _
  | @cons forest last item rest steps trees lands _ later =>
    have added := lands.labels_perm.append_left (planting (forest.count + 1) rest)
    exact later.trans (added.trans List.perm_middle)

/-- The items are added to those of the forest. -/
theorem Grows.items_perm {answers : α → α → Bool → Prop} {forest last : Forest α} {items : List α}
    (grows : Grows answers forest items last) :
    (last.toList.map Planted.item).Perm (items ++ forest.toList.map Planted.item) := by
  have added := grows.toList_perm.map Planted.item
  rwa [List.map_append, map_item_planting] at added

/-- Of a transitive relation, items that land one after another keep a forest arranged. -/
theorem Grows.arranged {forest last : Forest α} {items : List α}
    (transitive : ∀ a b c, contains a b = true → contains b c = true → contains a c = true)
    (grows : Grows (fun a b => (contains a b = ·)) forest items last)
    (before : Arranged contains forest.trees) : Arranged contains last.trees := by
  induction grows with
  | nil => exact before
  | cons lands _ later => exact later (lands.arranged transitive before)

/-- A relation that always answers alike yields its answer. -/
theorem yields_ofBool (a b : α) :
    Yields (Relation.ofBool (σ := σ) contains a b) (contains a b = ·) :=
  .pure rfl

/-- A forest of some items that a transitive relation builds has each of them in the slot of its
turn and is arranged. -/
theorem yields_build_arranged
    (transitive : ∀ a b c, contains a b = true → contains b c = true → contains a c = true)
    (items : List α) :
    Yields (build (σ := σ) (Relation.ofBool contains) items) fun result =>
      ∃ forest, result = .ok forest ∧ forest.toList.Perm (planting 0 items) ∧
        Arranged contains forest.trees := by
  intro state
  obtain ⟨forest, built, grows⟩ := yields_insertAll yields_ofBool empty items state
  have planted : forest.toList.Perm (planting 0 items ++ []) := grows.toList_perm
  rw [List.append_nil] at planted
  exact ⟨forest, built, planted, grows.arranged transitive ⟨List.Pairwise.nil, trivial⟩⟩

/-! ## The check -/

/-- A list is pairwise related if and only if its pairs are. -/
theorem forall_pairs_iff (related : α → α → Prop) (items : List α) :
    (∀ pair ∈ pairs items, related pair.1 pair.2) ↔ items.Pairwise related := by
  induction items with
  | nil => simp [pairs]
  | cons item rest later =>
    rw [pairs, List.forall_mem_append, later, List.pairwise_cons, List.forall_mem_map]

/-- A check that finds no misfit at any member finds none in the list. -/
theorem yields_firstMisfit? {β : Type} {check : β → StateM σ (Option (Misfit α))} {list : List β}
    (passes : ∀ x ∈ list, Yields (check x) (· = none)) :
    Yields (firstMisfit? check list) (· = none) := by
  induction list with
  | nil => exact .pure rfl
  | cons x rest later =>
    obtain ⟨first, others⟩ := List.forall_mem_cons.mp passes
    refine first.bind fun found none => ?_
    rw [none]
    exact later others

/-- An item that contains the one below it is no misfit. -/
theorem yields_checkAncestor {pair : α × α} (below : contains pair.1 pair.2 = true) :
    Yields (checkAncestor (σ := σ) (Relation.ofBool contains) pair) (· = none) := by
  refine (yields_ofBool pair.1 pair.2).bind fun answer same => ?_
  rw [← same, below]
  exact .pure rfl

/-- Two items neither of which contains the other are no misfit as siblings. -/
theorem yields_checkSiblings {pair : α × α}
    (apart : contains pair.1 pair.2 = false ∧ contains pair.2 pair.1 = false) :
    Yields (checkSiblings (σ := σ) (Relation.ofBool contains) pair) (· = none) := by
  refine (yields_ofBool pair.1 pair.2).bind fun first same => ?_
  rw [← same, apart.1]
  refine (yields_ofBool pair.2 pair.1).bind fun second same => ?_
  rw [← same, apart.2]
  exact .pure rfl

/-- If every item contains all below it and siblings are apart, a check finds no misfit. -/
theorem yields_disagreement? {forest : Forest α}
    (ancestors : ∀ place ∈ forest.trees.places, ∀ ancestor ∈ place.above,
      contains ancestor.item place.label.item = true)
    (roots : forest.trees.roots.Pairwise (Apart contains))
    (siblings : ∀ place ∈ forest.trees.places, place.children.Pairwise (Apart contains)) :
    Yields (disagreement? (σ := σ) (Relation.ofBool contains) forest) (· = none) := by
  have below : ∀ pair ∈ forest.ancestorPairs, contains pair.1 pair.2 = true := by
    simp only [ancestorPairs, List.forall_mem_flatMap, List.forall_mem_map]
    exact ancestors
  have apart : ∀ pair ∈ forest.siblingPairs,
      contains pair.1 pair.2 = false ∧ contains pair.2 pair.1 = false := by
    simp only [siblingPairs, List.forall_mem_flatMap, List.forall_mem_cons, List.forall_mem_map,
      forall_pairs_iff fun a b => contains a b = false ∧ contains b a = false, List.pairwise_map]
    exact ⟨roots, siblings⟩
  refine (yields_firstMisfit? fun pair present => ?_).bind fun found none => ?_
  · exact yields_checkAncestor (below pair present)
  · rw [none]
    exact yields_firstMisfit? fun pair present => yields_checkSiblings (apart pair present)

/-- Every forest that a transitive relation builds is arranged by it: the build succeeds and has
the items, every item contains all below it, no two siblings are related, and a check with the
relation finds no misfit. The relation need not be irreflexive or antisymmetric, and items may
occur again. -/
theorem build_arranged
    (transitive : ∀ a b c, contains a b = true → contains b c = true → contains a c = true)
    (items : List α) (state : σ) :
    ∃ forest, ((build (Relation.ofBool contains) items).run state).1 = .ok forest ∧
      (forest.toList.map Planted.item).Perm items ∧
      (∀ place ∈ forest.trees.places, ∀ ancestor ∈ place.above,
        contains ancestor.item place.label.item = true) ∧
      forest.trees.roots.Pairwise (Apart contains) ∧
      (∀ place ∈ forest.trees.places, place.children.Pairwise (Apart contains)) ∧
      ∀ later : σ, ((forest.disagreement? (Relation.ofBool contains)).run later).1 = none := by
  obtain ⟨forest, built, grows⟩ := yields_insertAll yields_ofBool empty items state
  have start : Arranged contains (empty : Forest α).trees := ⟨List.Pairwise.nil, trivial⟩
  obtain ⟨roots, families⟩ := grows.arranged transitive start
  have ancestors : ∀ place ∈ forest.trees.places, ∀ ancestor ∈ place.above,
      contains ancestor.item place.label.item = true := by
    refine Grove.Families.above (fun a b c : Planted α => transitive a.item b.item c.item) ?_
    exact families.imp fun _ _ family => family.1
  have siblings : ∀ place ∈ forest.trees.places, place.children.Pairwise (Apart contains) :=
    fun place placed => ((Grove.families_iff _ _).mp families place placed).2
  refine ⟨forest, built, ?_, ancestors, roots, siblings, ?_⟩
  · have added : (forest.toList.map Planted.item).Perm (items ++ []) := grows.items_perm
    rwa [List.append_nil] at added
  · exact yields_disagreement? ancestors roots siblings

/-- Numbers that came as 4, 6, 2, 12, 2 and 3, each below a divisor of it. -/
def divisors : Forest Nat :=
  ⟨.node ⟨5, 2⟩
    (.tree ⟨3, 2⟩ (.node ⟨1, 4⟩ (.tree ⟨4, 12⟩ .nil) (.tree ⟨2, 6⟩ .nil)))
    (.tree ⟨6, 3⟩ .nil), 6⟩

/-- Divisibility is reflexive and 12 has divisors that do not divide each other. -/
theorem build_arranged_divisors :
    ((build (Relation.ofBool fun a b => decide (a ∣ b)) [4, 6, 2, 12, 2, 3]).run ()).1 =
        .ok divisors ∧
      (divisors.toList.map Planted.item).Perm [4, 6, 2, 12, 2, 3] ∧
      (∀ place ∈ divisors.trees.places, ∀ ancestor ∈ place.above,
        ancestor.item ∣ place.label.item) ∧
      ((divisors.disagreement? (Relation.ofBool fun a b => decide (a ∣ b))).run ()).1 = none := by
  have transitive : ∀ a b c : Nat,
      decide (a ∣ b) = true → decide (b ∣ c) = true → decide (a ∣ c) = true := by
    simp only [decide_eq_true_eq]
    exact fun a b c => Nat.dvd_trans
  have computed : ((build (Relation.ofBool fun a b => decide (a ∣ b))
      [4, 6, 2, 12, 2, 3]).run ()).1 = .ok divisors := rfl
  obtain ⟨forest, built, same, ancestors, -, -, checked⟩ :=
    build_arranged transitive [4, 6, 2, 12, 2, 3] ()
  obtain rfl : forest = divisors := Except.ok.inj (built.symm.trans computed)
  exact ⟨computed, same, by simpa using ancestors, checked ()⟩

end Laminar.Forest
