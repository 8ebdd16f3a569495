import Laminar.Proofs.Nesting

/-!
# Tightest enclosers

In a nesting, what lies above an entry is what encloses it and comes before it in the order of
nesting (`mem_above_iff`), and each of these encloses those nearer to the entry. So the label just
above an entry is its tightest encloser, and the list of parents names it by emission
(`resolve_tightest`).
-/

namespace Laminar.Nesting

/-- The tag emitted at `outer` encloses another one, emitted at `inner`; of tags with one span only
the earlier encloses the later. -/
def Encloser (tags : List Tag) (outer inner : Nat) : Prop :=
  ∃ a b, tags[outer]? = some a ∧ tags[inner]? = some b ∧ outer ≠ inner ∧
    a.span.Encloses b.span ∧ (a.span ≠ b.span ∨ outer < inner)

/-- Among the entries of a list of tags, an encloser is one that encloses the other and comes before
it in the order of nesting. -/
theorem encloser_iff {tags : List Tag} {inner : Entry} (emitted : inner ∈ Entry.numbered 0 tags)
    (index : Nat) :
    Encloser tags index inner.index ↔
      ∃ outer ∈ Entry.numbered 0 tags, outer.index = index ∧ outer.Before inner ∧
        outer.span.Encloses inner.span := by
  have here := Entry.mem_numbered.mp emitted
  constructor
  · rintro ⟨a, b, outer_tag, inner_tag, different, encloses, first⟩
    obtain rfl : inner.tag = b := Option.some.inj (here.symm.trans inner_tag)
    refine ⟨⟨index, a⟩, Entry.mem_numbered.mpr outer_tag, rfl, ?_, encloses⟩
    exact Entry.before_of_encloses encloses first
  · rintro ⟨outer, outer_emitted, rfl, before, encloses⟩
    have there := Entry.mem_numbered.mp outer_emitted
    refine ⟨outer.tag, inner.tag, there, here, ?_, encloses, ?_⟩
    · intro same
      have itself := Entry.eq_of_index_eq (Entry.pairwise_index_numbered 0 tags) outer_emitted
        emitted same
      exact Entry.Before.irrefl inner (itself ▸ before)
    · by_cases copies : outer.span = inner.span
      · exact .inr (before.index_lt copies)
      · exact .inl copies

section Above

variable {entries : List Entry} {start stop : UInt64} {nesting : Grove Entry}
  (nests : Nests entries start stop nesting) {place : Grove.Place Entry}
  (placed : place ∈ nesting.places)

include nests placed

/-- The way down to an entry, with the entries below it that begin where it does, has all entries
that hold its first offset. -/
theorem path_append_holding_start :
    place.path ++ place.below.holding Entry.span place.label.span.start =
      nesting.holding Entry.span place.label.span.start := by
  have bounds := nests.within.inside _ (Grove.label_mem_of_mem_placesBelow placed)
  exact nests.within.path_append_holding placed ⟨UInt64.le_refl _, bounds.2.1⟩

/-- On the way down to an entry each comes before those after it and encloses them, and so it is
with the entries below that begin where it does. -/
theorem pairwise_path :
    (place.path ++ place.below.holding Entry.span place.label.span.start).Pairwise
      fun outer inner => outer.Before inner ∧ outer.span.Encloses inner.span := by
  rw [path_append_holding_start nests placed]
  exact (nests.sorted.filter _).and (nests.within.pairwise_encloses _)

/-- What lies above an entry is what encloses it and comes before it. -/
theorem mem_above_iff (outer : Entry) :
    outer ∈ place.above ↔
      outer ∈ nesting.labels ∧ outer.Before place.label ∧
        outer.span.Encloses place.label.span := by
  have pairs := pairwise_path nests placed
  have members := path_append_holding_start nests placed
  rw [Grove.Place.path_eq, List.append_assoc, List.singleton_append] at pairs members
  obtain ⟨_, lower, across⟩ := List.pairwise_append.mp pairs
  constructor
  · intro higher
    have first := List.mem_reverse.mpr higher
    have present := List.mem_append_left
      (place.label :: place.below.holding Entry.span place.label.span.start) first
    rw [members] at present
    exact ⟨(Grove.mem_holding.mp present).1, across outer first _ List.mem_cons_self⟩
  · rintro ⟨present, before, encloses⟩
    have bounds := nests.within.inside _ (Grove.label_mem_of_mem_placesBelow placed)
    have held : outer ∈ nesting.holding Entry.span place.label.span.start := by
      refine Grove.mem_holding.mpr ⟨present, encloses.1, ?_⟩
      exact UInt64.lt_of_lt_of_le bounds.2.1 encloses.2
    rw [← members] at held
    rcases List.mem_append.mp held with higher | rest
    · exact List.mem_reverse.mp higher
    · -- The entry itself and those below it do not come before it.
      rcases List.mem_cons.mp rest with rfl | deeper
      · exact absurd before (Entry.Before.irrefl _)
      · have after := (List.pairwise_cons.mp lower).1 outer deeper
        exact absurd before after.1.asymm

/-- Each entry above another that is not just above it comes before the one just above it and
encloses it. -/
theorem encloses_parent {parent outer : Entry} (just_above : place.parent? = some parent)
    (higher : outer ∈ place.above) (other : outer ≠ parent) :
    outer.Before parent ∧ outer.span.Encloses parent.span := by
  have pairs := pairwise_path nests placed
  rw [Grove.Place.path_eq] at pairs
  obtain ⟨nearer, split⟩ := List.head?_eq_some_iff.mp just_above
  rw [split, List.reverse_cons] at pairs
  have far : outer ∈ nearer.reverse := by
    rw [split] at higher
    exact List.mem_reverse.mpr ((List.mem_cons.mp higher).resolve_left other)
  have ends := (List.pairwise_append.mp (List.pairwise_append.mp pairs).1).1
  exact (List.pairwise_append.mp ends).2.2 outer far parent (List.mem_singleton_self _)

end Above

/-! ## The list of parents -/

/-- One link comes no later than another in the order of emission of their lower ends. -/
def byEmission (a b : Entry × Option Entry) : Bool :=
  a.1.index ≤ b.1.index

/-- Sorted by emission, the links of a nesting are those of the entries in their order. -/
theorem map_fst_mergeSort_links {nesting : Grove Entry} {entries : List Entry}
    (emitted : nesting.labels.Perm entries)
    (ascending : entries.Pairwise fun a b => a.index < b.index) :
    (nesting.links.mergeSort byEmission).map Prod.fst = entries := by
  have ordered : (nesting.links.mergeSort byEmission).Pairwise
      fun a b => byEmission a b = true := by
    apply List.pairwise_mergeSort
    · intro a b c first second
      simp only [byEmission, decide_eq_true_eq] at *
      omega
    · intro a b
      simp only [byEmission, Bool.or_eq_true, decide_eq_true_eq]
      omega
  have members : ((nesting.links.mergeSort byEmission).map Prod.fst).Perm entries := by
    refine ((List.mergeSort_perm _ _).map Prod.fst).trans ?_
    rw [Grove.map_fst_links]
    exact emitted
  have links : ((nesting.links.mergeSort byEmission).map Prod.fst).Pairwise
      fun a b => a.index ≤ b.index :=
    List.pairwise_map.mpr (ordered.imp fun first => of_decide_eq_true first)
  refine List.Perm.eq_of_pairwise ?_ links (ascending.imp Nat.le_of_lt) members
  intro a b left right first second
  exact Entry.eq_of_index_eq ascending (members.mem_iff.mp left) right
    (Nat.le_antisymm first second)

section Parents

variable {tags : List Tag} {nesting : Grove Entry}
  (emitted : nesting.labels.Perm (Entry.numbered 0 tags))

include emitted

/-- There is an answer for every tag. -/
theorem length_parents : (parents nesting).length = tags.length := by
  have lengths := congrArg List.length
    (map_fst_mergeSort_links emitted (Entry.pairwise_index_numbered 0 tags))
  rw [List.length_map, Entry.length_numbered] at lengths
  rw [parents, List.length_map]
  exact lengths

/-- The parent of an entry stands at its place in the order of emission. -/
theorem getElem?_parents {link : Entry × Option Entry} (linked : link ∈ nesting.links) :
    (parents nesting)[link.1.index]? = some (link.2.map Entry.index) := by
  have listed : link ∈ nesting.links.mergeSort byEmission := List.mem_mergeSort.mpr linked
  obtain ⟨place, found⟩ := List.mem_iff_getElem?.mp listed
  have entry : (Entry.numbered 0 tags)[place]? = some link.1 := by
    rw [← map_fst_mergeSort_links emitted (Entry.pairwise_index_numbered 0 tags),
      List.getElem?_map, found]
    rfl
  have index : link.1.index = place := by
    rw [Entry.getElem?_numbered] at entry
    obtain ⟨tag, _, same⟩ := Option.map_eq_some_iff.mp entry
    rw [← same]
    exact Nat.zero_add place
  have there : (nesting.links.mergeSort byEmission)[link.1.index]? = some link := index ▸ found
  rw [parents, List.getElem?_map]
  exact congrArg (Option.map _) there

end Parents

section Resolve

variable {tags : List Tag} (proper : ∀ tag ∈ tags, tag.span.start < tag.span.stop)

include proper

/-- The parents of tags that hold an offset are read off a nesting of all of them. -/
theorem nests_of_resolve {result : List (Option Nat)} (resolved : resolve tags = .ok result) :
    ∃ nesting, Nests (Entry.numbered 0 tags) 0 0xFFFFFFFFFFFFFFFF nesting ∧
      result = parents nesting := by
  unfold resolve at resolved
  cases nested : ofEntries (Entry.numbered 0 tags) with
  | error error =>
    rw [nested] at resolved
    contradiction
  | ok nesting =>
    rw [nested] at resolved
    refine ⟨nesting, ?_, (Except.ok.inj resolved).symm⟩
    apply nests_of_ofEntries (Entry.pairwise_index_ne_numbered tags) ?_ nested
    · exact fun _ _ => UInt64.zero_le
    · exact fun _ _ => Span.le_last _
    · exact fun entry present => proper _ (Entry.tag_mem_of_mem_numbered present)

/-- Tags that hold an offset have parents if and only if no two of them cross. -/
theorem exists_resolve_iff :
    (∃ result, resolve tags = .ok result) ↔
      ∀ a ∈ tags, ∀ b ∈ tags, ¬ a.span.Crosses b.span := by
  have nestable := exists_ofEntries_iff (Entry.pairwise_index_ne_numbered tags)
    fun entry present => proper _ (Entry.tag_mem_of_mem_numbered present)
  have outcome : (∃ result, resolve tags = .ok result) ↔
      ∃ nesting, ofEntries (Entry.numbered 0 tags) = .ok nesting := by
    unfold resolve
    cases ofEntries (Entry.numbered 0 tags) with
    | error error => simp [Except.map]
    | ok nesting => simp [Except.map]
  rw [outcome, nestable]
  constructor
  · intro apart a left b right
    obtain ⟨first, first_emitted, rfl⟩ := Entry.exists_mem_numbered left
    obtain ⟨second, second_emitted, rfl⟩ := Entry.exists_mem_numbered right
    exact apart first first_emitted second second_emitted
  · intro apart a left b right
    exact apart _ (Entry.tag_mem_of_mem_numbered left) _ (Entry.tag_mem_of_mem_numbered right)

end Resolve

section Tightest

variable {tags : List Tag} {start stop : UInt64} {nesting : Grove Entry}
  (nests : Nests (Entry.numbered 0 tags) start stop nesting) {place : Grove.Place Entry}
  (placed : place ∈ nesting.places)

include nests placed

/-- The enclosers of a tag are the places of the entries above its own. -/
theorem encloser_iff_above (index : Nat) :
    Encloser tags index place.label.index ↔ ∃ outer ∈ place.above, outer.index = index := by
  have emitted : ∀ entry, entry ∈ Entry.numbered 0 tags ↔ entry ∈ nesting.labels := by
    intro entry
    rw [nests.labels, List.mem_mergeSort]
  have here := (emitted _).mpr (Grove.label_mem_of_mem_placesBelow placed)
  rw [encloser_iff here]
  constructor
  · rintro ⟨outer, outer_emitted, same, before, encloses⟩
    refine ⟨outer, (mem_above_iff nests placed outer).mpr ?_, same⟩
    exact ⟨(emitted outer).mp outer_emitted, before, encloses⟩
  · rintro ⟨outer, higher, same⟩
    obtain ⟨present, before, encloses⟩ := (mem_above_iff nests placed outer).mp higher
    exact ⟨outer, (emitted outer).mpr present, same, before, encloses⟩

/-- There is no entry above another if and only if its tag has no encloser. -/
theorem parent?_eq_none_iff :
    place.parent? = none ↔ ∀ outer, ¬ Encloser tags outer place.label.index := by
  simp only [encloser_iff_above nests placed, Grove.Place.parent?, List.head?_eq_none_iff]
  constructor
  · intro top outer
    simp [top]
  · intro alone
    apply List.eq_nil_iff_forall_not_mem.mpr
    intro outer higher
    exact alone outer.index ⟨outer, higher, rfl⟩

/-- The entry just above another is an encloser, and the other enclosers are enclosers of it. -/
theorem encloser_of_parent? {parent : Entry} (just_above : place.parent? = some parent) :
    Encloser tags parent.index place.label.index ∧
      ∀ outer, Encloser tags outer place.label.index → outer ≠ parent.index →
        Encloser tags outer parent.index := by
  have emitted : ∀ entry ∈ place.above, entry ∈ Entry.numbered 0 tags := by
    intro entry higher
    have present := ((mem_above_iff nests placed entry).mp higher).1
    rwa [nests.labels, List.mem_mergeSort] at present
  have higher : parent ∈ place.above := List.mem_of_head? just_above
  constructor
  · exact (encloser_iff_above nests placed _).mpr ⟨parent, higher, rfl⟩
  · intro outer encloser different
    obtain ⟨upper, farther, rfl⟩ := (encloser_iff_above nests placed _).mp encloser
    have other : upper ≠ parent := fun same => different (congrArg Entry.index same)
    have order := encloses_parent nests placed just_above farther other
    exact (encloser_iff (emitted parent higher) _).mpr ⟨upper, emitted upper farther, rfl, order⟩

end Tightest

/-- Tags that hold an offset have parents if and only if no two of them cross. A tag has no parent
if and only if it has no encloser. A parent is an encloser, and every other encloser of the tag is
an encloser of the parent as well, so the parent is the tightest one. -/
theorem resolve_tightest {tags : List Tag}
    (proper : ∀ tag ∈ tags, tag.span.start < tag.span.stop) :
    ((∃ result, resolve tags = .ok result) ↔
      ∀ a ∈ tags, ∀ b ∈ tags, ¬ a.span.Crosses b.span) ∧
    ∀ result, resolve tags = .ok result →
      result.length = tags.length ∧
      ∀ inner < tags.length,
        (result[inner]? = some none ↔ ∀ outer, ¬ Encloser tags outer inner) ∧
        ∀ tightest, result[inner]? = some (some tightest) →
          Encloser tags tightest inner ∧
            ∀ outer, Encloser tags outer inner → outer ≠ tightest →
              Encloser tags outer tightest := by
  refine ⟨exists_resolve_iff proper, ?_⟩
  intro result resolved
  obtain ⟨nesting, nests, rfl⟩ := nests_of_resolve proper resolved
  have emitted : nesting.labels.Perm (Entry.numbered 0 tags) :=
    nests.labels ▸ List.mergeSort_perm _ _
  refine ⟨length_parents emitted, ?_⟩
  intro inner inside
  have numbered : (⟨inner, tags[inner]⟩ : Entry) ∈ Entry.numbered 0 tags :=
    Entry.mem_numbered.mpr (List.getElem?_eq_getElem inside)
  obtain ⟨place, placed, label⟩ :=
    Grove.exists_place_of_mem_labels [] (emitted.mem_iff.mpr numbered)
  have linked : (place.label, place.parent?) ∈ nesting.links := List.mem_map_of_mem placed
  have entry := getElem?_parents emitted linked
  have index : place.label.index = inner := congrArg Entry.index label
  rw [← index, entry]
  constructor
  · rw [← parent?_eq_none_iff nests placed]
    simp
  · intro tightest found
    obtain ⟨parent, just_above, rfl⟩ := Option.map_eq_some_iff.mp (Option.some.inj found)
    exact encloser_of_parent? nests placed just_above

/-- A tag that is emitted before two copies of a wider one. -/
def copiesLast : List Tag :=
  [.raw 4 6 "inner", .raw 2 10 "outer", .raw 2 10 "copy"]

/-- The parent of the inner one of `copiesLast` is the copy, which the other encloser encloses. -/
theorem resolve_tightest_copiesLast :
    resolve copiesLast = .ok [some 2, none, some 1] ∧
      (∀ outer, ¬ Encloser copiesLast outer 1) ∧
      Encloser copiesLast 2 0 ∧
      ∀ outer, Encloser copiesLast outer 0 → outer ≠ 2 → Encloser copiesLast outer 2 := by
  have resolved : resolve copiesLast = .ok [some 2, none, some 1] := by cbv
  have parents := (resolve_tightest (by decide)).2 _ resolved
  obtain ⟨top, _⟩ := parents.2 1 (by decide)
  obtain ⟨_, tightest⟩ := parents.2 0 (by decide)
  obtain ⟨encloser, others⟩ := tightest 2 rfl
  exact ⟨resolved, top.mp rfl, encloser, others⟩

end Laminar.Nesting
