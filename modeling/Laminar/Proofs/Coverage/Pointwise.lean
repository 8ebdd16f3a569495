import Laminar.Proofs.Coverage.Fragments
import Laminar.Proofs.Coverage.Tiling

/-!
# A coverage at one offset

Each offset of a filled coverage is in one leaf, and the tags on the way down to that leaf are the
tags that hold the offset, from the outermost to the innermost (`build_pointwise`). The way down
is the list of the segments that hold the offset, so all of it is read off that list: the tags
among them are the entries of the nesting that hold the offset (`filter_isTag_holding`), and a leaf
that is no tag stands just below the last of these (`parent_of_untagged`).
-/

namespace Laminar.Coverage

/-- The entries that hold an offset, from the outermost to the innermost. -/
structure Chain (tags : List Tag) (offset : UInt64) (chain : List Entry) : Prop where
  /-- Each tag that holds the offset is there once. -/
  members : chain.Perm ((Entry.proper tags).filter fun entry => entry.span.Holds offset)
  /-- An enclosing span comes before those it encloses, and equal spans come as emitted. -/
  ordered : chain.Pairwise fun outer inner =>
    outer.span.Encloses inner.span ∧ (outer.span = inner.span → outer.index < inner.index)

section Holding

variable {tags : List Tag} {span : Span} {nesting : Grove Entry}
  (nests : Nesting.Nests (Entry.proper tags) span.start span.stop nesting)

include nests

/-- The entries of a nesting that hold an offset, in its order, are the chain there. -/
theorem chain_holding (offset : UInt64) :
    Chain tags offset (nesting.holding Entry.span offset) := by
  constructor
  · unfold Grove.holding
    rw [nests.labels]
    exact (List.mergeSort_perm _ _).filter _
  · have copies := nests.sorted.filter fun entry => entry.span.Holds offset
    refine ((nests.within.pairwise_encloses offset).and copies).imp ?_
    rintro outer inner ⟨encloses, before⟩
    exact ⟨encloses, before.index_lt⟩

/-- As many tags hold an offset as the chain has entries. -/
theorem length_holding (offset : UInt64) :
    (nesting.holding Entry.span offset).length =
      tags.countP fun tag => ¬ tag.span.Degenerate ∧ tag.span.Holds offset := by
  rw [(chain_holding nests offset).members.length_eq, Entry.proper, List.filter_filter,
    ← List.countP_eq_length_filter]
  conv_rhs => rw [← Entry.map_tag_numbered 0 tags, List.countP_map]
  congr 1
  funext entry
  simp only [Function.comp_apply, Bool.decide_and]
  exact Bool.and_comm _ _

end Holding

/-- Among the segments that hold an offset, the tags are the entries that do. -/
theorem filter_isTag_holding (span : Span) (nesting : Grove Entry) (offset : UInt64) :
    ((ofNesting span true nesting).tree.holding Segment.span offset).filter Segment.isTag =
      (nesting.holding Entry.span offset).map .ofEntry := by
  have tags : (ofNesting span true nesting).tree.labels.filter Segment.isTag =
      nesting.labels.map .ofEntry := by
    rw [tree, Grove.tree, Grove.labels, List.filter_cons_of_neg (by simp), Grove.labels,
      List.append_nil]
    exact filter_isTag_labels_tile span.start span.stop nesting
  unfold Grove.holding
  rw [List.filter_comm, tags, List.filter_map]
  rfl

/-- Between the ends that segments tile, an offset is in exactly one segment without children. -/
theorem Tiled.exists_leaf {start stop offset : UInt64} {segments : Grove Segment}
    (tiled : Tiled start stop segments) (between : start ≤ offset ∧ offset < stop) :
    ∃ leaf, (segments.places.filter fun place =>
      place.isLeaf && place.label.span.Holds offset) = [leaf] := by
  have counted := tiled.adjoin_leaves.countP_holds offset
  rw [if_pos between, ← Grove.map_label_filter_isLeaf [] segments, List.map_map, List.countP_map,
    List.countP_eq_length_filter, List.filter_filter] at counted
  simp only [Bool.and_comm]
  exact List.length_eq_one_iff.mp counted

section Leaf

variable {span : Span} {nesting : Grove Entry} {offset : UInt64} {leaf : Grove.Place Segment}
  (within : nesting.Within Entry.span span.start span.stop) (proper : span.start < span.stop)
  (placed : leaf ∈ (ofNesting span true nesting).places) (childless : leaf.isLeaf = true)
  (held : leaf.label.span.Holds offset)

include within proper placed childless held

/-- The tags on the way down to a leaf are the entries that hold its offsets. -/
theorem filter_isTag_path :
    leaf.path.filter Segment.isTag = (nesting.holding Entry.span offset).map .ofEntry := by
  rw [(tiled_tree within proper).within.path_eq_holding placed childless held,
    filter_isTag_holding]

omit held in
/-- The file holds a byte, so it is no leaf, and every leaf lies below it. -/
theorem leaf_below_file : leaf ∈ (tile span.start span.stop nesting).placesBelow [.file span] := by
  have filled := tiled_tile within (UInt64.le_of_lt proper)
  rcases List.mem_cons.mp placed with rfl | lower
  · have empty := (Grove.isEmpty_iff_roots _).mp childless
    have some_root := filled.adjoin_roots.ne_nil proper
    exact absurd (congrArg (List.map Segment.span) empty) some_root
  · rcases List.mem_append.mp lower with lower | absent
    · exact lower
    · contradiction

/-- A leaf that is no tag is a fragment just below the innermost tag that holds its offsets, or
just below the file. -/
theorem parent_of_untagged (untagged : leaf.label.isTag = false) :
    leaf.label.isFragment = true ∧
      leaf.parent? =
        some (((nesting.holding Entry.span offset).getLast?.map .ofEntry).getD (.file span)) := by
  have lower := leaf_below_file within proper placed childless
  constructor
  · have kinds := isTag_or_isFragment_of_mem_tile span.start span.stop nesting
    have kind := kinds _ (Grove.label_mem_of_mem_placesBelow lower)
    exact kind.resolve_left (by simp [untagged])
  · have parents : (tile span.start span.stop nesting).Families fun segment children =>
        children ≠ [] → segment.isTag = true :=
      (families_tile _ _ _).imp fun _ _ family child => (family child).1
    obtain ⟨between, split, tagged⟩ := parents.placesBelow_inner leaf lower
    have chain : between.reverse = (nesting.holding Entry.span offset).map .ofEntry := by
      rw [← filter_isTag_path within proper placed childless held, Grove.Place.path_eq, split]
      rw [List.reverse_append, List.filter_append, List.filter_append]
      simp [untagged, List.filter_eq_self.mpr tagged]
    rw [Grove.Place.parent?, split, List.head?_append, ← List.getLast?_reverse, chain,
      List.getLast?_map]
    exact Option.or_some

/-- A leaf is a tag if and only if the innermost tag that holds its offsets has no tag below it. -/
theorem isTag_leaf_iff
    (only : ∀ place ∈ (ofNesting span true nesting).places, place.isLeaf = true →
      place.label.span.Holds offset → place = leaf) :
    leaf.label.isTag = true ↔
      ∃ innermost ∈ (nesting.holding Entry.span offset).getLast?,
        ∃ place ∈ (ofNesting span true nesting).places,
          place.label = .ofEntry innermost ∧ ∀ child ∈ place.children, child.isTag = false := by
  have tags := filter_isTag_path within proper placed childless held
  constructor
  · intro tagged
    rw [Grove.Place.path_eq, List.filter_append, List.filter_cons_of_pos tagged,
      List.filter_nil] at tags
    have last := congrArg List.getLast? tags
    rw [List.getLast?_concat, List.getLast?_map] at last
    obtain ⟨innermost, found, same⟩ := Option.map_eq_some_iff.mp last.symm
    refine ⟨innermost, found, leaf, placed, same.symm, ?_⟩
    rw [Grove.Place.children, (Grove.isEmpty_iff_roots _).mp childless]
    simp
  · rintro ⟨innermost, found, place, present, same, untagged⟩
    have families : (ofNesting span true nesting).tree.Families fun segment children =>
        children ≠ [] → segment.isTag = true → ∃ child ∈ children, child.isTag = true := by
      refine ⟨fun _ tagged => by simp at tagged, ?_, trivial⟩
      exact (families_tile _ _ _).imp fun _ _ family child _ => (family child).2
    have inner := (Grove.families_iff _ _).mp families place present
    have bare : place.children = [] := by
      by_contra some_child
      obtain ⟨child, lower, tagged⟩ := inner some_child (by simp [same])
      rw [untagged child lower] at tagged
      contradiction
    have holds : place.label.span.Holds offset := by
      rw [same]
      exact (Grove.mem_holding.mp (List.mem_of_getLast? found)).2
    rw [← only place present ((Grove.isEmpty_iff_roots _).mpr bare) holds, same]
    rfl

end Leaf

/-- With gaps filled, an offset of the file is in exactly one leaf. The tags on the way down to it
are the tags that hold the offset, each once, from the outermost to the innermost. The leaf is a
tag if and only if no tag lies below the innermost of these; else it is a fragment just below that
tag, or below the file if no tag holds the offset. If there is a tag to show, the depth is one more
than the largest number of tags that hold one offset. -/
theorem build_pointwise {tags : List Tag} {span : Span} {options : Options} {coverage : Coverage}
    (filled : options.fillGaps = true) (built : (build tags span options).2 = .ok coverage) :
    (∀ offset, span.Holds offset → ∃ leaf chain,
      (coverage.places.filter fun place =>
        place.isLeaf && place.label.span.Holds offset) = [leaf] ∧
      Chain tags offset chain ∧
      leaf.path.filter Segment.isTag = chain.map .ofEntry ∧
      (leaf.label.isTag = true ↔
        ∃ innermost ∈ chain.getLast?, ∃ place ∈ coverage.places,
          place.label = .ofEntry innermost ∧ ∀ child ∈ place.children, child.isTag = false) ∧
      (leaf.label.isTag = false →
        leaf.label.isFragment = true ∧
          leaf.parent? = some ((chain.getLast?.map .ofEntry).getD (.file span)))) ∧
    ((∃ tag ∈ tags, ¬ tag.span.Degenerate) →
      (∀ offset, 1 + (tags.countP fun tag => ¬ tag.span.Degenerate ∧ tag.span.Holds offset) ≤
        coverage.depth) ∧
      ∃ offset, 1 + (tags.countP fun tag => ¬ tag.span.Degenerate ∧ tag.span.Holds offset) =
        coverage.depth) := by
  obtain ⟨nesting, nests, rfl⟩ := of_build built
  rw [filled]
  constructor
  · intro offset within_file
    have proper := UInt64.lt_of_le_of_lt within_file.1 within_file.2
    obtain ⟨leaf, unique⟩ := (tiled_tree nests.within proper).exists_leaf within_file
    have found : leaf ∈ (ofNesting span true nesting).places ∧ leaf.isLeaf = true ∧
        leaf.label.span.Holds offset := by
      have listed : leaf ∈ [leaf] := List.mem_singleton_self leaf
      rw [← unique] at listed
      have passed := List.mem_filter.mp listed
      exact ⟨passed.1, by simpa using passed.2⟩
    have only : ∀ place ∈ (ofNesting span true nesting).places, place.isLeaf = true →
        place.label.span.Holds offset → place = leaf := by
      intro place placed childless held
      apply List.mem_singleton.mp
      rw [← unique]
      exact List.mem_filter.mpr ⟨placed, by simp [childless, held]⟩
    obtain ⟨placed, childless, held⟩ := found
    refine ⟨leaf, _, unique, chain_holding nests offset, ?_, ?_, ?_⟩
    · exact filter_isTag_path nests.within proper placed childless held
    · exact isTag_leaf_iff nests.within proper placed childless held only
    · exact parent_of_untagged nests.within proper placed childless held
  · rintro ⟨tag, emitted, admissible⟩
    have tree : nesting ≠ .nil := by
      rintro rfl
      obtain ⟨entry, numbered, rfl⟩ := Entry.exists_mem_numbered emitted
      have present : entry ∈ (Entry.proper tags).mergeSort Entry.comesFirst :=
        List.mem_mergeSort.mpr (List.mem_filter.mpr ⟨numbered, decide_eq_true admissible⟩)
      rw [← nests.labels] at present
      contradiction
    have depth_eq : (ofNesting span true nesting).depth = 1 + nesting.height := by
      have height := height_tile span.start span.stop tree
      change max (1 + (tile span.start span.stop nesting).height) 0 = _
      omega
    rw [depth_eq]
    constructor
    · intro offset
      rw [← length_holding nests]
      have := nests.within.length_holding_le_height offset
      omega
    · obtain ⟨deepest, _, reached⟩ := nests.within.exists_length_holding_eq_height tree
      exact ⟨_, by rw [← length_holding nests, reached]⟩

/-- At offset 5 lie the outer tag, its copy and the inner tag. -/
theorem build_pointwise_nestedCopies :
    build nestedCopies ⟨0, 16⟩ ⟨true, .skip⟩ =
        ([.skipped ⟨3, .raw 12 12 "empty"⟩], .ok nestedCopiesCoverage) ∧
      (∃ leaf chain,
        (nestedCopiesCoverage.places.filter fun place =>
          place.isLeaf && place.label.span.Holds 5) = [leaf] ∧
        Chain nestedCopies 5 chain ∧ leaf.path.filter Segment.isTag = chain.map .ofEntry) ∧
      (∀ offset, 1 + (nestedCopies.countP fun tag =>
        ¬ tag.span.Degenerate ∧ tag.span.Holds offset) ≤ nestedCopiesCoverage.depth) ∧
      1 + (nestedCopies.countP fun tag => ¬ tag.span.Degenerate ∧ tag.span.Holds 5) =
        nestedCopiesCoverage.depth := by
  obtain ⟨ways, depth⟩ := build_pointwise rfl (congrArg Prod.snd build_nestedCopies)
  obtain ⟨leaf, chain, unique, members, path, _⟩ := ways 5 (by decide)
  have shown : ∃ tag ∈ nestedCopies, ¬ tag.span.Degenerate :=
    ⟨_, List.mem_cons_self, by decide⟩
  exact ⟨build_nestedCopies, ⟨leaf, chain, unique, members, path⟩, (depth shown).1, by decide⟩

end Laminar.Coverage
