import Laminar.Proofs.Coverage.Admission

/-!
# Tiling of a coverage

Where gaps are filled, the children of every segment that has any tile its span, and the leaves
tile the span of the file (`build_tiles`). `Tiled` is this as a recursion over the segments: the
trees follow one another without gap from one end to the other, and so do those below each segment.
A fragment before every tag and one at the end keep it (`tiled_gapBefore`, `tiled_tile`).
-/

namespace Laminar.Coverage

/-- The trees follow one another without gap or overlap from `start` to `stop`, and so do those
below every segment that has children. -/
def Tiled (start stop : UInt64) : Grove Segment → Prop
  | .nil => start = stop
  | .node segment below beside =>
    (segment.span.start = start ∧ segment.span.start < segment.span.stop) ∧
      (below.isEmpty = false → Tiled segment.span.start segment.span.stop below) ∧
        Tiled segment.span.stop stop beside

namespace Tiled

variable {start stop : UInt64} {segments : Grove Segment}

/-- The trees themselves make one run. -/
theorem adjoin_roots (tiled : Tiled start stop segments) :
    Span.Adjoin start stop (segments.roots.map Segment.span) := by
  induction segments generalizing start with
  | nil => exact tiled
  | node segment below beside _ later => exact ⟨tiled.1.1, tiled.1.2, later tiled.2.2⟩

/-- The children of every segment that has any tile its span. -/
theorem families (tiled : Tiled start stop segments) :
    segments.Families fun segment children =>
      children ≠ [] → segment.span.TiledBy (children.map Segment.span) := by
  induction segments generalizing start stop with
  | nil => trivial
  | node segment below beside inner later =>
    obtain ⟨_, lower, right⟩ := tiled
    by_cases leaf : below.isEmpty = true
    · obtain rfl := (Grove.isEmpty_iff_eq_nil below).mp leaf
      exact ⟨fun child => absurd rfl child, trivial, later right⟩
    · have lower := lower (Bool.eq_false_iff.mpr leaf)
      refine ⟨fun child => ?_, inner lower, later right⟩
      exact lower.adjoin_roots.tiledBy (by simpa using child)

/-- The segments without children make one run. -/
theorem adjoin_leaves (tiled : Tiled start stop segments) :
    Span.Adjoin start stop (segments.leaves.map Segment.span) := by
  induction segments generalizing start stop with
  | nil => exact tiled
  | node segment below beside inner later =>
    obtain ⟨⟨rfl, proper⟩, lower, right⟩ := tiled
    rw [Grove.leaves, List.map_append]
    refine Span.Adjoin.append ?_ (later right)
    by_cases leaf : below.isEmpty = true
    · rw [if_pos leaf]
      exact ⟨rfl, proper, rfl⟩
    · rw [if_neg leaf]
      exact inner (lower (Bool.eq_false_iff.mpr leaf))

/-- Segments that tile their spans nest. -/
theorem within (tiled : Tiled start stop segments) : segments.Within Segment.span start stop := by
  induction segments generalizing start stop with
  | nil => trivial
  | node segment below beside inner later =>
    have bound := tiled.2.2.adjoin_roots.le
    obtain ⟨⟨rfl, proper⟩, lower, right⟩ := tiled
    refine ⟨⟨UInt64.le_refl _, proper, bound⟩, ?_, later right⟩
    by_cases leaf : below.isEmpty = true
    · obtain rfl := (Grove.isEmpty_iff_eq_nil below).mp leaf
      trivial
    · exact inner (lower (Bool.eq_false_iff.mpr leaf))

end Tiled

/-- What a fragment leads up to is reached from the fragment's beginning. -/
theorem tiled_gapBefore {start middle stop : UInt64} {beside : Grove Segment}
    (ordered : start ≤ middle) (tiled : Tiled middle stop beside) :
    Tiled start stop (gapBefore start middle beside) := by
  unfold gapBefore
  by_cases gap : start < middle
  · rw [if_pos gap]
    exact ⟨⟨rfl, gap⟩, fun inner => by simp [Grove.isEmpty] at inner, tiled⟩
  · have same : start = middle := UInt64.le_antisymm ordered (UInt64.not_lt.mp gap)
    rw [if_neg gap]
    exact same ▸ tiled

/-- Filling the gaps of entries that nest between two ends tiles what is between these. -/
theorem tiled_tile {cursor stop : UInt64} {nesting : Grove Entry}
    (within : nesting.Within Entry.span cursor stop) (ordered : cursor ≤ stop) :
    Tiled cursor stop (tile cursor stop nesting) := by
  induction nesting generalizing cursor stop with
  | nil => exact tiled_gapBefore ordered rfl
  | node entry below beside inner later =>
    obtain ⟨⟨begins, proper, ends⟩, lower, right⟩ := within
    have moved : max cursor entry.span.stop = entry.span.stop := by
      rw [UInt64.max_def, if_pos (UInt64.le_trans begins (UInt64.le_of_lt proper))]
    rw [tile, moved]
    refine tiled_gapBefore begins ⟨⟨rfl, proper⟩, ?_, later right ends⟩
    intro child
    by_cases leaf : below.isEmpty = true
    · rw [if_pos leaf] at child
      contradiction
    · rw [if_neg leaf]
      exact inner lower (UInt64.le_of_lt proper)

/-- Entries that nest between two ends nest there with the fragments between them. -/
theorem within_tile {cursor stop : UInt64} {nesting : Grove Entry}
    (within : nesting.Within Entry.span cursor stop) :
    (tile cursor stop nesting).Within Segment.span cursor stop := by
  by_cases ordered : cursor ≤ stop
  · exact (tiled_tile within ordered).within
  · cases nesting with
    | nil =>
      rw [tile, gapBefore, if_neg fun proper => ordered (UInt64.le_of_lt proper)]
      trivial
    | node entry below beside =>
      obtain ⟨begins, proper, ends⟩ := within.1
      exact absurd (UInt64.le_trans begins (UInt64.le_trans (UInt64.le_of_lt proper) ends)) ordered

/-- A file that holds no byte has room for no tag and no fragment. -/
theorem segments_of_degenerate {span : Span} {nesting : Grove Entry}
    (within : nesting.Within Entry.span span.start span.stop) (degenerate : span.Degenerate) :
    (ofNesting span true nesting).segments = .nil := by
  unfold Span.Degenerate at degenerate
  have bare : nesting = .nil := by
    cases nesting with
    | nil => rfl
    | node entry below beside =>
      obtain ⟨begins, proper, ends⟩ := within.1
      have ordered := UInt64.le_trans degenerate begins
      exact absurd (UInt64.lt_of_le_of_lt ordered proper) (UInt64.not_lt.mpr ends)
  have none_left : ¬ span.start < span.stop := UInt64.not_lt.mpr degenerate
  rw [bare, ofNesting, if_pos rfl, tile, gapBefore, if_neg none_left]

/-- The whole tree of a file that holds a byte tiles the span of the file. -/
theorem tiled_tree {span : Span} {nesting : Grove Entry}
    (within : nesting.Within Entry.span span.start span.stop) (proper : span.start < span.stop) :
    Tiled span.start span.stop (ofNesting span true nesting).tree :=
  ⟨⟨rfl, proper⟩, fun _ => tiled_tile within (UInt64.le_of_lt proper), rfl⟩

/-- With gaps filled, the children of every node that has any tile the span of the node. The leaves
of a file that holds a byte tile its span: they come in order, none overlaps another, and together
they hold exactly the offsets of the file. A file that holds no byte is a bare node. -/
theorem build_tiles {tags : List Tag} {span : Span} {options : Options} {coverage : Coverage}
    (filled : options.fillGaps = true) (built : (build tags span options).2 = .ok coverage) :
    coverage.span = span ∧
      (∀ place ∈ coverage.places, place.children ≠ [] →
        place.label.span.TiledBy (place.children.map Segment.span)) ∧
      (¬ span.Degenerate →
        span.TiledBy (coverage.leaves.map Segment.span) ∧
          (coverage.leaves.Pairwise fun a b => a.span.stop ≤ b.span.start) ∧
          ∀ offset, span.Holds offset ↔ ∃ leaf ∈ coverage.leaves, leaf.span.Holds offset) ∧
      (span.Degenerate →
        coverage.tree = .tree (.file span) .nil ∧ coverage.fragmentCount = 0) := by
  obtain ⟨nesting, nests, rfl⟩ := of_build built
  rw [filled]
  by_cases degenerate : span.Degenerate
  · have bare := segments_of_degenerate nests.within degenerate
    have tree : (ofNesting span true nesting).tree = .tree (.file span) .nil := by
      rw [Coverage.tree, bare]
      rfl
    have families : (ofNesting span true nesting).tree.Families fun segment children =>
        children ≠ [] → segment.span.TiledBy (children.map Segment.span) := by
      rw [tree]
      exact ⟨fun child => absurd rfl child, trivial, trivial⟩
    refine ⟨rfl, (Grove.families_iff _ _).mp families, fun proper => absurd degenerate proper, ?_⟩
    intro _
    refine ⟨tree, ?_⟩
    rw [fragmentCount, bare]
    rfl
  · have proper := (Span.not_degenerate_iff span).mp degenerate
    have tiled := tiled_tree nests.within proper
    have adjoin := tiled.adjoin_leaves
    refine ⟨rfl, (Grove.families_iff _ _).mp tiled.families, fun _ => ⟨?_, ?_, ?_⟩, ?_⟩
    · exact adjoin.tiledBy (adjoin.ne_nil proper)
    · exact List.pairwise_map.mp adjoin.ordered
    · intro offset
      have held := adjoin.exists_holds_iff offset
      simp only [List.mem_map, exists_exists_and_eq_and] at held
      exact held.symm
    · exact fun bare => absurd bare degenerate

/-- Tags emitted in no order: two of one span, one inside them, and one that holds no byte. -/
def nestedCopies : List Tag :=
  [.raw 4 6 "inner", .raw 2 10 "outer", .raw 2 10 "copy", .raw 12 12 "empty"]

/-- The coverage of sixteen bytes by `nestedCopies`, without the tag that holds no byte. -/
def nestedCopiesCoverage : Coverage where
  span := ⟨0, 16⟩
  segments :=
    .node (.fragment ⟨0, 2⟩) .nil
      (.node (.ofEntry ⟨1, .raw 2 10 "outer"⟩)
        (.tree (.ofEntry ⟨2, .raw 2 10 "copy"⟩)
          (.node (.fragment ⟨2, 4⟩) .nil
            (.node (.ofEntry ⟨0, .raw 4 6 "inner"⟩) .nil (.tree (.fragment ⟨6, 10⟩) .nil))))
        (.tree (.fragment ⟨10, 16⟩) .nil))

/-- What is built from `nestedCopies`. -/
theorem build_nestedCopies :
    build nestedCopies ⟨0, 16⟩ ⟨true, .skip⟩ =
      ([.skipped ⟨3, .raw 12 12 "empty"⟩], .ok nestedCopiesCoverage) := by
  cbv

/-- In the coverage of `nestedCopies` children tile their parents, and the leaves tile the file. -/
theorem build_tiles_nestedCopies :
    build nestedCopies ⟨0, 16⟩ ⟨true, .skip⟩ =
        ([.skipped ⟨3, .raw 12 12 "empty"⟩], .ok nestedCopiesCoverage) ∧
      (∀ place ∈ nestedCopiesCoverage.places, place.children ≠ [] →
        place.label.span.TiledBy (place.children.map Segment.span)) ∧
      Span.TiledBy ⟨0, 16⟩ [⟨0, 2⟩, ⟨2, 4⟩, ⟨4, 6⟩, ⟨6, 10⟩, ⟨10, 16⟩] := by
  obtain ⟨_, families, leaves, _⟩ := build_tiles rfl (congrArg Prod.snd build_nestedCopies)
  exact ⟨build_nestedCopies, families, (leaves (by decide)).1⟩

end Laminar.Coverage
