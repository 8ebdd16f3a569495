import Laminar.Proofs.Coverage.Admission
import Laminar.Proofs.Span.Gaps

/-!
# Fragments of a coverage

Filling gaps adds fragments and changes nothing else: the tags stay in their order
(`filter_isTag_labels_tile`), whatever is added is a fragment, a fragment has no children, and a tag
gets fragments below it only where it has a tag below it already (`families_tile`). So the height
stays what it was (`height_tile`), and there are as many nodes more as there are fragments
(`nodeCount_ofNesting`).
-/

namespace Laminar

namespace Grove

variable {α : Type} {span : α → Span}

/-- The trees between the ends of a span are claims on it in ascending order. -/
theorem Within.gaps_roots {g : Grove α} {s : Span} (within : g.Within span s.start s.stop) :
    s.gaps (g.roots.map span) = Span.gapsFrom s.start s.stop (g.roots.map span) := by
  have inside : ∀ root ∈ g.roots, (span root).start < (span root).stop ∧
      s.start ≤ (span root).start ∧ (span root).stop ≤ s.stop := by
    intro root top
    obtain ⟨begins, proper, ends⟩ := within.inside root ((roots_sublist_labels g).subset top)
    exact ⟨proper, begins, ends⟩
  apply Span.gaps_eq_gapsFrom
  · refine List.pairwise_map.mpr (within.pairwise_roots.imp_of_mem ?_)
    intro a b first _ ended
    have proper := (inside a first).1
    rw [Span.comesFirst_iff]
    rw [UInt64.lt_iff_toNat_lt] at proper
    rw [UInt64.le_iff_toNat_le] at ended
    omega
  · rw [List.forall_mem_map]
    intro root top
    obtain ⟨proper, begins, ends⟩ := inside root top
    refine ⟨proper, UInt64.lt_of_lt_of_le proper ends, UInt64.lt_of_le_of_lt begins proper⟩

end Grove

namespace Coverage

namespace Segment

/-- The segment of an entry is a tag. -/
@[simp]
theorem isTag_ofEntry (entry : Entry) : (ofEntry entry).isTag = true :=
  rfl

/-- A fragment is no tag. -/
@[simp]
theorem isTag_fragment (span : Span) : (fragment span).isTag = false :=
  rfl

/-- The file itself is no tag. -/
@[simp]
theorem isTag_file (span : Span) : (file span).isTag = false :=
  rfl

/-- The segment of an entry is no fragment. -/
@[simp]
theorem isFragment_ofEntry (entry : Entry) : (ofEntry entry).isFragment = false :=
  rfl

/-- The segment made for a gap is a fragment. -/
@[simp]
theorem isFragment_fragment (span : Span) : (fragment span).isFragment = true :=
  rfl

/-- The file itself is no fragment. -/
@[simp]
theorem isFragment_file (span : Span) : (file span).isFragment = false :=
  rfl

/-- A tag is no fragment. -/
theorem isFragment_of_isTag {segment : Segment} (tagged : segment.isTag = true) :
    segment.isFragment = false := by
  obtain ⟨span, kind, description, origin⟩ := segment
  cases origin with
  | file => contradiction
  | tag index => rfl
  | gap => contradiction

end Segment

section GapBefore

variable (start stop : UInt64) (beside : Grove Segment)

/-- A fragment in front adds no tag. -/
@[simp]
theorem filter_isTag_labels_gapBefore :
    (gapBefore start stop beside).labels.filter Segment.isTag =
      beside.labels.filter Segment.isTag := by
  unfold gapBefore
  split <;> simp [Grove.labels]

/-- A fragment in front has no children. -/
@[simp]
theorem families_gapBefore {family : Segment → List Segment → Prop}
    (leaf : ∀ span, family (.fragment span) []) :
    (gapBefore start stop beside).Families family ↔ beside.Families family := by
  unfold gapBefore
  split <;> simp [Grove.Families, Grove.roots, leaf]

/-- A fragment in front adds no tag to the trees themselves. -/
@[simp]
theorem filter_isTag_roots_gapBefore :
    (gapBefore start stop beside).roots.filter Segment.isTag =
      beside.roots.filter Segment.isTag := by
  unfold gapBefore
  split <;> simp [Grove.roots]

/-- What a fragment in front adds is a fragment. -/
theorem mem_labels_gapBefore {segment : Segment}
    (present : segment ∈ (gapBefore start stop beside).labels) :
    segment.isFragment = true ∨ segment ∈ beside.labels := by
  unfold gapBefore at present
  split at present
  · rcases List.mem_cons.mp present with rfl | present
    · exact .inl rfl
    · exact .inr present
  · exact .inr present

/-- A fragment in front counts as one. -/
theorem countP_isFragment_labels_gapBefore :
    (gapBefore start stop beside).labels.countP Segment.isFragment =
      (if start < stop then 1 else 0) + beside.labels.countP Segment.isFragment := by
  unfold gapBefore
  split
  · rw [Grove.labels, List.countP_cons_of_pos (Segment.isFragment_fragment _), Nat.add_comm]
    rfl
  · rw [Nat.zero_add]

/-- A fragment in front is a tree of height one. -/
theorem height_gapBefore :
    beside.height ≤ (gapBefore start stop beside).height ∧
      (gapBefore start stop beside).height ≤ max 1 beside.height := by
  unfold gapBefore
  split
  · simp only [Grove.height]
    omega
  · omega

end GapBefore

/-- What stands below a tag once gaps are filled: nothing, if the tag has nothing below it. -/
def tileBelow (entry : Entry) (below : Grove Entry) : Grove Segment :=
  if below.isEmpty then .nil else tile entry.span.start entry.span.stop below

/-- Before a tree lies the gap up to where it begins, below it is what tiles it, and the rest is
tiled from where it ends. -/
theorem tile_node (cursor stop : UInt64) (entry : Entry) (below beside : Grove Entry) :
    tile cursor stop (.node entry below beside) =
      gapBefore cursor entry.span.start
        (.node (.ofEntry entry) (tileBelow entry below)
          (tile (max cursor entry.span.stop) stop beside)) := by
  rw [tile]
  rfl

/-- An entry with others below it is tiled by them. -/
theorem tileBelow_of_ne_nil (entry : Entry) {below : Grove Entry} (tree : below ≠ .nil) :
    tileBelow entry below = tile entry.span.start entry.span.stop below := by
  rw [tileBelow, if_neg (mt (Grove.isEmpty_iff_eq_nil below).mp tree)]

/-- Filling gaps keeps the tags in their order. -/
theorem filter_isTag_labels_tile (cursor stop : UInt64) (nesting : Grove Entry) :
    (tile cursor stop nesting).labels.filter Segment.isTag = nesting.labels.map .ofEntry := by
  induction nesting generalizing cursor stop with
  | nil => simp [tile, Grove.labels]
  | node entry below beside inner later =>
    have lower : (tileBelow entry below).labels.filter Segment.isTag =
        below.labels.map .ofEntry := by
      by_cases leaf : below = .nil
      · subst leaf
        rfl
      · rw [tileBelow_of_ne_nil entry leaf, inner]
    rw [tile_node, filter_isTag_labels_gapBefore, Grove.labels, List.filter_cons_of_pos rfl,
      List.filter_append, lower, later, Grove.labels, List.map_cons, List.map_append]

/-- Filling gaps keeps the tags among the trees themselves. -/
theorem filter_isTag_roots_tile (cursor stop : UInt64) (nesting : Grove Entry) :
    (tile cursor stop nesting).roots.filter Segment.isTag = nesting.roots.map .ofEntry := by
  induction nesting generalizing cursor stop with
  | nil => simp [tile, Grove.roots]
  | node entry below beside _ later =>
    rw [tile_node, filter_isTag_roots_gapBefore, Grove.roots, List.filter_cons_of_pos rfl, later,
      Grove.roots, List.map_cons]

/-- A segment that has children is a tag, and one of its children is a tag. -/
theorem families_tile (cursor stop : UInt64) (nesting : Grove Entry) :
    (tile cursor stop nesting).Families fun segment children =>
      children ≠ [] → segment.isTag = true ∧ ∃ child ∈ children, child.isTag = true := by
  induction nesting generalizing cursor stop with
  | nil => exact (families_gapBefore _ _ _ (by simp)).mpr trivial
  | node entry below beside inner later =>
    rw [tile_node]
    refine (families_gapBefore _ _ _ (by simp)).mpr ⟨?_, ?_, later _ _⟩
    · intro some_child
      refine ⟨rfl, ?_⟩
      cases below with
      | nil => exact absurd rfl some_child
      | node child lower next =>
        have tags := filter_isTag_roots_tile entry.span.start entry.span.stop
          (.node child lower next)
        have first : Segment.ofEntry child ∈ (tileBelow entry (.node child lower next)).roots := by
          rw [tileBelow_of_ne_nil entry (by simp)]
          apply List.mem_of_mem_filter (p := Segment.isTag)
          rw [tags]
          exact List.mem_cons_self
        exact ⟨_, first, rfl⟩
    · by_cases leaf : below = .nil
      · subst leaf
        trivial
      · rw [tileBelow_of_ne_nil entry leaf]
        exact inner _ _

/-- A segment that is no tag is a fragment. -/
theorem isTag_or_isFragment_of_mem_tile (cursor stop : UInt64) (nesting : Grove Entry) :
    ∀ segment ∈ (tile cursor stop nesting).labels,
      segment.isTag = true ∨ segment.isFragment = true := by
  induction nesting generalizing cursor stop with
  | nil =>
    intro segment present
    rcases mem_labels_gapBefore _ _ _ present with fragment | present
    · exact .inr fragment
    · contradiction
  | node entry below beside inner later =>
    intro segment present
    rw [tile_node] at present
    rcases mem_labels_gapBefore _ _ _ present with fragment | present
    · exact .inr fragment
    · simp only [Grove.labels, List.mem_cons, List.mem_append] at present
      rcases present with rfl | lower | right
      · exact .inl rfl
      · by_cases leaf : below = .nil
        · subst leaf
          exact absurd lower List.not_mem_nil
        · rw [tileBelow_of_ne_nil entry leaf] at lower
          exact inner _ _ segment lower
      · exact later _ _ segment right

/-- The file, the tags and the fragments are all there is. -/
theorem nodeCount_filled (span : Span) (nesting : Grove Entry) :
    (ofNesting span true nesting).nodeCount =
      1 + nesting.labels.length + (ofNesting span true nesting).fragmentCount := by
  have tags : (tile span.start span.stop nesting).labels.countP Segment.isTag =
      nesting.labels.length := by
    rw [List.countP_eq_length_filter, filter_isTag_labels_tile, List.length_map]
  have others : (tile span.start span.stop nesting).labels.countP (fun segment => ¬ segment.isTag) =
      (tile span.start span.stop nesting).labels.countP Segment.isFragment := by
    apply List.countP_congr
    intro segment present
    rcases isTag_or_isFragment_of_mem_tile _ _ _ segment present with tagged | fragment
    · simp [tagged, Segment.isFragment_of_isTag tagged]
    · cases tagged : segment.isTag with
      | false => simp [fragment]
      | true => simp [Segment.isFragment_of_isTag tagged] at fragment
  have all := List.length_eq_countP_add_countP Segment.isTag
    (l := (tile span.start span.stop nesting).labels)
  rw [tags, others, Grove.length_labels] at all
  show 1 + (tile span.start span.stop nesting).size + 0 =
    1 + nesting.labels.length + (tile span.start span.stop nesting).labels.countP Segment.isFragment
  omega

/-- Without gaps filled there is no fragment. -/
theorem fragmentCount_bare (span : Span) (nesting : Grove Entry) :
    (ofNesting span false nesting).fragmentCount = 0 := by
  show (nesting.map Segment.ofEntry).labels.countP Segment.isFragment = 0
  rw [Grove.labels_map, List.countP_map, List.countP_eq_zero]
  exact fun entry _ => by simp

/-- Whether gaps are filled or not, the file, the tags and the fragments are all there is. -/
theorem nodeCount_ofNesting (span : Span) (fillGaps : Bool) (nesting : Grove Entry) :
    (ofNesting span fillGaps nesting).nodeCount =
      1 + nesting.labels.length + (ofNesting span fillGaps nesting).fragmentCount := by
  cases fillGaps with
  | true => exact nodeCount_filled span nesting
  | false =>
    rw [fragmentCount_bare, Grove.length_labels]
    show 1 + (nesting.map Segment.ofEntry).size + 0 = _
    rw [Grove.size_map]

/-- Filling gaps between trees changes no height. -/
theorem height_tile (cursor stop : UInt64) {nesting : Grove Entry} (tree : nesting ≠ .nil) :
    (tile cursor stop nesting).height = nesting.height := by
  induction nesting generalizing cursor stop with
  | nil => exact absurd rfl tree
  | node entry below beside inner later =>
    have lower : (tileBelow entry below).height = below.height := by
      by_cases leaf : below = .nil
      · subst leaf
        rfl
      · rw [tileBelow_of_ne_nil entry leaf, inner _ _ leaf]
    have right : (tile (max cursor entry.span.stop) stop beside).height ≤ max 1 beside.height ∧
        beside.height ≤ (tile (max cursor entry.span.stop) stop beside).height := by
      by_cases last : beside = .nil
      · subst last
        have := height_gapBefore (max cursor entry.span.stop) stop .nil
        exact ⟨this.2, this.1⟩
      · rw [later _ _ last]
        omega
    have whole := height_gapBefore cursor entry.span.start
      (.node (.ofEntry entry) (tileBelow entry below)
        (tile (max cursor entry.span.stop) stop beside))
    rw [tile_node]
    simp only [Grove.height, lower] at whole ⊢
    omega

end Coverage

end Laminar
