import Laminar.Proofs.Coverage.Linked
import Laminar.Proofs.Grove.Pruning

/-!
# Filling of gaps

A coverage with gaps filled is the coverage without, and fragments. Taken out of the segments, the
fragments leave the tags as they nest (`prune_tile`). Those below one segment are the gaps that the
tags below it leave (`families_filled`), so they are the largest parts without a tag and no two of
them are neighbours. The counts are those of the node store that the coverage is put together in
(`Shows`). Whether gaps are filled does not decide whether a coverage can be built (`build_fills`).
-/

namespace Laminar.Coverage

/-! ## Without the fragments -/

section Prune

variable {keep : Segment → Bool} (gaps : ∀ span, keep (.fragment span) = false)
  (tags : ∀ entry, keep (.ofEntry entry) = true)

include gaps in
/-- A gap in front is left out with the fragments. -/
theorem prune_gapBefore (start stop : UInt64) (beside : Grove Segment) :
    (gapBefore start stop beside).prune keep = beside.prune keep := by
  unfold gapBefore
  split
  · rw [Grove.prune, gaps]
    rfl
  · rfl

include gaps tags

/-- Without the fragments, the tags stand as they nest. -/
theorem prune_tile (cursor stop : UInt64) (nesting : Grove Entry) :
    (tile cursor stop nesting).prune keep = nesting.map .ofEntry := by
  induction nesting generalizing cursor stop with
  | nil => exact prune_gapBefore gaps cursor stop .nil
  | node entry below beside inner later =>
    have lower : (tileBelow entry below).prune keep = below.map .ofEntry := by
      by_cases leaf : below = .nil
      · subst leaf
        rfl
      · rw [tileBelow_of_ne_nil entry leaf, inner]
    rw [tile_node, prune_gapBefore gaps, Grove.prune, if_pos (tags entry), lower, later, Grove.map]

/-- Whether gaps are filled or not, the tags stand as they nest. -/
theorem prune_segments (span : Span) (fillGaps : Bool) (nesting : Grove Entry) :
    (ofNesting span fillGaps nesting).segments.prune keep = nesting.map .ofEntry := by
  cases fillGaps with
  | true => exact prune_tile gaps tags span.start span.stop nesting
  | false =>
    apply Grove.prune_eq_self
    show ∀ segment ∈ (nesting.map Segment.ofEntry).labels, keep segment = true
    rw [Grove.labels_map, List.forall_mem_map]
    exact fun entry _ => tags entry

end Prune

/-! ## Between the tags -/

/-- The fragments among the trees are the gaps that the tags among them leave. -/
theorem filter_isFragment_roots_tile (cursor stop : UInt64) (nesting : Grove Entry) :
    ((tile cursor stop nesting).roots.filter Segment.isFragment).map Segment.span =
      Span.gapsFrom cursor stop (nesting.roots.map Entry.span) := by
  induction nesting generalizing cursor stop with
  | nil =>
    rw [tile, gapBefore, Grove.roots, List.map_nil, Span.gapsFrom]
    split <;> rfl
  | node entry below beside _ later =>
    have following : ((Segment.ofEntry entry ::
        (tile (max cursor entry.span.stop) stop beside).roots).filter
          Segment.isFragment).map Segment.span =
        Span.gapsFrom (max cursor entry.span.stop) stop (beside.roots.map Entry.span) := by
      rw [List.filter_cons_of_neg (by simp), later]
    rw [tile_node, gapBefore, Grove.roots, List.map_cons, Span.gapsFrom]
    split
    · rw [Grove.roots, Grove.roots, List.filter_cons_of_pos (Segment.isFragment_fragment _),
        List.map_cons, following]
      rfl
    · exact following

/-- Of two neighbours among the trees, one is a tag. -/
theorem isChain_roots_tile (cursor stop : UInt64) (nesting : Grove Entry) :
    (tile cursor stop nesting).roots.IsChain fun a b =>
      ¬ (a.isFragment = true ∧ b.isFragment = true) := by
  induction nesting generalizing cursor stop with
  | nil =>
    rw [tile, gapBefore]
    split <;> simp [Grove.roots]
  | node entry below beside _ later =>
    have fromTag : (Segment.ofEntry entry ::
        (tile (max cursor entry.span.stop) stop beside).roots).IsChain fun a b =>
          ¬ (a.isFragment = true ∧ b.isFragment = true) :=
      List.isChain_cons.mpr ⟨by simp, later (max cursor entry.span.stop) stop⟩
    rw [tile_node, gapBefore]
    split
    · exact List.isChain_cons.mpr ⟨by simp [Grove.roots], fromTag⟩
    · exact fromTag

/-- How a segment stands with its children once gaps are filled. -/
structure Filled (segment : Segment) (children : List Segment) : Prop where
  /-- A fragment has nothing of its own and nothing below it. -/
  fragment : segment.isFragment = true → segment = .fragment segment.span ∧ children = []
  /-- A tag with no tag just below it has nothing below it. -/
  bare : segment.isTag = true → (∀ child ∈ children, child.isTag = false) → children = []
  /-- Below the file, and below a tag that has one just below it, the fragments are the gaps that
  the tags there leave. -/
  gaps : (segment.origin = .file ∨ ∃ child ∈ children, child.isTag = true) →
    (children.filter Segment.isFragment).map Segment.span =
      segment.span.gaps ((children.filter Segment.isTag).map Segment.span)
  /-- Of two neighbours one is no fragment. -/
  apart : children.IsChain fun a b => ¬ (a.isFragment = true ∧ b.isFragment = true)

/-- A fragment without children stands as it should. -/
theorem filled_fragment (span : Span) : Filled (.fragment span) [] := by
  refine ⟨fun _ => ⟨rfl, rfl⟩, by simp, ?_, List.IsChain.nil⟩
  rintro (file | ⟨child, present, -⟩)
  · contradiction
  · contradiction

/-- The trees between the ends of a span leave the gaps that are filled. -/
theorem gaps_roots_tile {s : Span} {nesting : Grove Entry}
    (within : nesting.Within Entry.span s.start s.stop) :
    ((tile s.start s.stop nesting).roots.filter Segment.isFragment).map Segment.span =
      s.gaps (((tile s.start s.stop nesting).roots.filter Segment.isTag).map Segment.span) := by
  rw [filter_isFragment_roots_tile, filter_isTag_roots_tile, List.map_map, ← within.gaps_roots]
  rfl

/-- Every segment of what is filled stands so with its children. -/
theorem families_filled {nesting : Grove Entry} {cursor stop : UInt64}
    (within : nesting.Within Entry.span cursor stop) :
    (tile cursor stop nesting).Families Filled := by
  induction nesting generalizing cursor stop with
  | nil => exact (families_gapBefore _ _ _ filled_fragment).mpr trivial
  | node entry below beside inner later =>
    obtain ⟨⟨begins, proper, ends⟩, lower, right⟩ := within
    have moved : max cursor entry.span.stop = entry.span.stop := by
      rw [UInt64.max_def, if_pos (UInt64.le_trans begins (UInt64.le_of_lt proper))]
    rw [tile_node, moved]
    refine (families_gapBefore _ _ _ filled_fragment).mpr ⟨?_, ?_, later right⟩
    · by_cases leaf : below = .nil
      · subst leaf
        exact ⟨by simp, fun _ _ => rfl, by rintro (file | ⟨child, present, -⟩) <;> contradiction,
          List.IsChain.nil⟩
      · rw [tileBelow_of_ne_nil entry leaf]
        refine ⟨by simp, fun _ untagged => ?_, fun _ => gaps_roots_tile lower,
          isChain_roots_tile _ _ below⟩
        have tags := filter_isTag_roots_tile entry.span.start entry.span.stop below
        rw [List.filter_eq_nil_iff.mpr fun child present => by
          simp [untagged child present]] at tags
        have none_below : below.roots = [] := List.map_eq_nil_iff.mp tags.symm
        exact absurd ((Grove.isEmpty_iff_eq_nil below).mp
          ((Grove.isEmpty_iff_roots below).mpr none_below)) leaf
    · by_cases leaf : below = .nil
      · subst leaf
        trivial
      · rw [tileBelow_of_ne_nil entry leaf]
        exact inner lower

/-- The whole tree of what is filled stands so too, the file with the trees just below it. -/
theorem families_filled_tree {span : Span} {nesting : Grove Entry}
    (within : nesting.Within Entry.span span.start span.stop) :
    (ofNesting span true nesting).tree.Families Filled := by
  refine ⟨⟨by simp, by simp, fun _ => gaps_roots_tile within, isChain_roots_tile _ _ nesting⟩,
    families_filled within, trivial⟩

/-- The tags of a tree, whether gaps are filled or not, are those of the nesting. -/
theorem filter_isTag_labels_tree (span : Span) (fillGaps : Bool) (nesting : Grove Entry) :
    (ofNesting span fillGaps nesting).tree.labels.filter Segment.isTag =
      nesting.labels.map .ofEntry := by
  show ((Grove.tree (Segment.file span) (ofNesting span fillGaps nesting).segments).labels.filter
    Segment.isTag) = nesting.labels.map .ofEntry
  rw [Grove.labels_tree, List.filter_cons_of_neg (by simp)]
  cases fillGaps with
  | true => exact filter_isTag_labels_tile span.start span.stop nesting
  | false =>
    show (nesting.map Segment.ofEntry).labels.filter Segment.isTag = nesting.labels.map .ofEntry
    rw [Grove.labels_map, List.filter_eq_self]
    simp

/-! ## With gaps and without -/

/-- A segment is no fragment. -/
def Segment.isProper (segment : Segment) : Bool :=
  !segment.isFragment

/-- What a coverage with gaps filled, put together in a node store, has in common with the coverage
of the same tags without, and what the fragments in it are. -/
structure Fills (tags : List Tag) (filled bare : Coverage) (linked : LinkedCoverage) : Prop where
  /-- Without the fragments, the one tree is the other. -/
  tree : filled.tree.prune Segment.isProper = bare.tree
  /-- Each tag has the same tag above it. -/
  parentMap : filled.parentMap = bare.parentMap
  /-- The tags come in the same order. -/
  flatten : filled.flatten = bare.flatten
  /-- The same place is found for a description, but for the fragments below it. -/
  find : ∀ description,
    (filled.find? description).map (Grove.Place.prune Segment.isProper) = bare.find? description
  /-- A fragment has the kind of fragments, no description and nothing below it. -/
  fragment : ∀ place ∈ filled.places, place.label.isFragment = true →
    place.label.kind = .fragment ∧ place.label.description = "" ∧ place.isLeaf = true
  /-- Below the file, and below a tag that has one just below it, the fragments are the largest
  parts of the span in none of the tags just below, each part once and in ascending order. -/
  gaps : ∀ place ∈ filled.places,
    (place.label.origin = .file ∨ ∃ child ∈ place.children, child.isTag = true) →
      ((place.children.filter Segment.isFragment).map Segment.span).Pairwise
          (fun earlier later => earlier.stop < later.start) ∧
        ∀ part, part ∈ (place.children.filter Segment.isFragment).map Segment.span ↔
          Span.IsGap place.label.span ((place.children.filter Segment.isTag).map Segment.span) part
  /-- Of two neighbours one is no fragment. -/
  apart : ∀ place ∈ filled.places,
    place.children.IsChain fun a b => ¬ (a.isFragment = true ∧ b.isFragment = true)
  /-- A tag with no tag just below it has nothing below it. -/
  leaf : ∀ place ∈ filled.places, place.label.isTag = true →
    (∀ child ∈ place.children, child.isTag = false) → place.isLeaf = true
  /-- The links in the node store make the tree. -/
  shows : LinkedCoverage.Shows linked filled
  /-- A walk through the node store meets the places. -/
  visited : linked.visited = filled.places.map Grove.Place.label
  /-- The nodes that were made for gaps are the fragments. -/
  fragmentCount : linked.fragmentCount = filled.places.countP fun place => place.label.isFragment
  /-- A walk meets all nodes that the node store has. -/
  nodeCount : linked.nodeCount = linked.visited.length
  /-- The nodes are the file, the tags that hold an offset, and the fragments. -/
  nodes : linked.nodeCount =
    1 + (tags.countP fun tag => ¬ tag.span.Degenerate) + linked.fragmentCount

section OfNesting

variable {span : Span} {nesting : Grove Entry}
  (within : nesting.Within Entry.span span.start span.stop)

/-- Without the fragments, the tree with gaps filled is the tree without. -/
theorem prune_tree (span : Span) (nesting : Grove Entry) :
    (ofNesting span true nesting).tree.prune Segment.isProper =
      (ofNesting span false nesting).tree := by
  have segments : (ofNesting span true nesting).segments.prune Segment.isProper =
      (ofNesting span false nesting).segments :=
    prune_segments (fun _ => rfl) (fun _ => rfl) span true nesting
  show (Grove.tree (.file span) (ofNesting span true nesting).segments).prune Segment.isProper =
    .tree (.file span) (ofNesting span false nesting).segments
  rw [← segments]
  rfl

include within

/-- The places without gaps filled are those with, but for the fragments. -/
theorem places_bare :
    (ofNesting span false nesting).places =
      ((ofNesting span true nesting).places.filter fun place => place.label.isProper).map
        (Grove.Place.prune Segment.isProper) := by
  have leaves : (ofNesting span true nesting).tree.Families fun segment children =>
      segment.isProper = false → children = [] := by
    refine (families_filled_tree within).imp fun segment children filled fragment => ?_
    exact (filled.fragment (by simpa [Segment.isProper] using fragment)).2
  show (ofNesting span false nesting).tree.places = _
  rw [← prune_tree]
  exact Grove.places_prune leaves

/-- What is found for a description is found without gaps filled. -/
theorem find?_bare (description : String) :
    ((ofNesting span true nesting).find? description).map (Grove.Place.prune Segment.isProper) =
      (ofNesting span false nesting).find? description := by
  rw [find?, find?, places_bare within, List.find?_map, List.find?_filter]
  refine congrArg (Option.map _) (congrArg (List.find? · _) (funext fun place => ?_))
  show (place.label.isTag && place.label.description == description) =
    decide (place.label.isProper = true ∧
      (place.label.isTag && place.label.description == description) = true)
  cases tagged : place.label.isTag with
  | false => simp
  | true => simp [Segment.isProper, Segment.isFragment_of_isTag tagged, beq_eq_decide]

/-- Each tag has the same tag above it without gaps filled. -/
theorem parentMap_bare :
    (ofNesting span true nesting).parentMap = (ofNesting span false nesting).parentMap := by
  rw [parentMap, parentMap, places_bare within, List.filterMap_map, List.filterMap_filter]
  congr 2
  funext place
  cases proper : place.label.isProper with
  | true => simp [Grove.Place.prune, Grove.Place.parent?]
  | false =>
    have fragment : place.label.origin = .gap := by
      simpa [Segment.isProper, Segment.isFragment] using proper
    simp [Segment.tagIndex?, fragment]

end OfNesting

/-- The fragments are those at the places. -/
theorem fragmentCount_eq (coverage : Coverage) :
    coverage.fragmentCount = coverage.places.countP fun place => place.label.isFragment := by
  have labels : coverage.places.map Grove.Place.label = coverage.tree.labels :=
    Grove.map_label_places _
  show coverage.segments.labels.countP Segment.isFragment =
    coverage.places.countP (Segment.isFragment ∘ Grove.Place.label)
  rw [← List.countP_map, labels, tree, Grove.labels_tree,
    List.countP_cons_of_neg (by simp)]

/-- The coverages of one nesting with gaps filled and without. -/
theorem fills_ofNesting {tags : List Tag} {span : Span} {nesting : Grove Entry}
    (nests : Nesting.Nests (Entry.proper tags) span.start span.stop nesting)
    {linked : LinkedCoverage} (shows : LinkedCoverage.Shows linked (ofNesting span true nesting)) :
    Fills tags (ofNesting span true nesting) (ofNesting span false nesting) linked := by
  have families : ∀ place ∈ (ofNesting span true nesting).places,
      Filled place.label place.children :=
    (Grove.families_iff _ _).mp (families_filled_tree nests.within)
  have isLeaf : ∀ place : Grove.Place Segment, place.children = [] → place.isLeaf = true :=
    fun place => (Grove.isEmpty_iff_roots place.below).mpr
  have number : nesting.labels.length = tags.countP fun tag => ¬ tag.span.Degenerate := by
    rw [nests.labels, List.length_mergeSort, List.countP_eq_length_filter, ← Entry.map_tag_proper,
      List.length_map]
  constructor
  case tree => exact prune_tree span nesting
  case parentMap => exact parentMap_bare nests.within
  case flatten =>
    rw [flatten, flatten, prune_segments Segment.isTag_fragment Segment.isTag_ofEntry,
      prune_segments Segment.isTag_fragment Segment.isTag_ofEntry]
  case find => exact find?_bare nests.within
  case fragment =>
    intro place placed fragment
    obtain ⟨made, bare⟩ := (families place placed).fragment fragment
    rw [made]
    exact ⟨rfl, rfl, isLeaf place bare⟩
  case gaps =>
    intro place placed inner
    rw [(families place placed).gaps inner]
    exact ⟨(Span.complement_gaps _ _).apart, Span.mem_gaps_iff _ _⟩
  case apart => exact fun place placed => (families place placed).apart
  case leaf =>
    exact fun place placed tagged none_below =>
      isLeaf place ((families place placed).bare tagged none_below)
  case shows => exact shows
  case visited =>
    rw [shows.visited_eq]
    exact (Grove.map_label_places _).symm
  case fragmentCount => rw [shows.fragmentCount, fragmentCount_eq]
  case nodeCount => rw [shows.nodeCount, shows.visited_eq, nodeCount, Grove.length_labels]
  case nodes => rw [shows.nodeCount, shows.fragmentCount, nodeCount_filled, number]

/-- Whether gaps are filled decides neither whether a coverage can be built nor how building fails,
and a coverage with gaps filled is the one without and the fewest fragments. -/
theorem build_fills (tags : List Tag) (span : Span) (policy : DegeneratePolicy) :
    (∃ error, (build tags span ⟨true, policy⟩).2 = .error error ∧
        (build tags span ⟨false, policy⟩).2 = .error error) ∨
      ∃ filled bare linked, (build tags span ⟨true, policy⟩).2 = .ok filled ∧
        (build tags span ⟨false, policy⟩).2 = .ok bare ∧
        (LinkedCoverage.build tags span ⟨true, policy⟩).2 = .ok linked ∧
        Fills tags filled bare linked := by
  cases admits : (admission span policy (Entry.numbered 0 tags)).2 with
  | error error =>
    have fails : ∀ fillGaps, (build tags span ⟨fillGaps, policy⟩).2 = .error error := by
      intro fillGaps
      rw [snd_build, admits]
      rfl
    exact .inl ⟨error, fails true, fails false⟩
  | ok admitted =>
    have outcome : ∀ fillGaps, (build tags span ⟨fillGaps, policy⟩).2 =
        (Nesting.ofEntries admitted).map (ofNesting span fillGaps) := by
      intro fillGaps
      rw [snd_build, admits]
      rfl
    cases nested : Nesting.ofEntries admitted with
    | error error =>
      exact .inl ⟨error, by rw [outcome, nested]; rfl, by rw [outcome, nested]; rfl⟩
    | ok nesting =>
      have filled : (build tags span ⟨true, policy⟩).2 = .ok (ofNesting span true nesting) := by
        rw [outcome, nested]
        rfl
      have bare : (build tags span ⟨false, policy⟩).2 = .ok (ofNesting span false nesting) := by
        rw [outcome, nested]
        rfl
      obtain ⟨error, -, failed⟩ | ⟨linked, coverage, put, built, shows⟩ :=
        (LinkedCoverage.build_shows tags span ⟨true, policy⟩).2
      · rw [filled] at failed
        contradiction
      · obtain rfl := Except.ok.inj (built.symm.trans filled)
        exact .inr ⟨_, _, linked, filled, bare, put,
          fills_ofNesting (nests_of_admission admits nested) shows⟩

end Laminar.Coverage
