import Mathlib.Logic.Equiv.Basic
import Laminar.Proofs.Coverage.Fragments
import Laminar.Proofs.Coverage.Tiling

/-!
# The order of emission

The order in which tags come decides only which of several copies of one span is the outer one.
Whether a coverage can be built depends on the tags alone (`exists_build_iff`). The sorted spans
are the same for every order (`map_span_labels_eq`), and spans that nest determine their nesting
(`group_labels`), so the coverages have the same shape. If copies of one span keep their order, the
sorted entries are the same up to their places, and so are the coverages (`build_emission`).
-/

open scoped List

namespace Laminar

/-- One span comes no later than another in the order of nesting: by beginning, the later end
first. -/
def Span.NestsFirst (a b : Span) : Prop :=
  a.start < b.start ∨ a.start = b.start ∧ b.stop ≤ a.stop

/-- A span comes no later than itself. -/
theorem Span.NestsFirst.refl (s : Span) : s.NestsFirst s :=
  .inr ⟨rfl, UInt64.le_refl _⟩

/-- Spans neither of which comes later than the other are the same. -/
theorem Span.NestsFirst.antisymm {a b : Span} (first : a.NestsFirst b) (second : b.NestsFirst a) :
    a = b := by
  simp only [NestsFirst, UInt64.lt_iff_toNat_lt, UInt64.le_iff_toNat_le, ← UInt64.toNat_inj]
    at first second
  rw [eq_iff, ← UInt64.toNat_inj, ← UInt64.toNat_inj]
  omega

namespace Entry

/-- The entry at another place in the order of emission. -/
def renumbered (rename : Nat → Nat) (entry : Entry) : Entry :=
  ⟨rename entry.index, entry.tag⟩

/-- An entry with nothing but its span. -/
def ofSpan (s : Span) : Entry :=
  ⟨0, .raw s.start s.stop ""⟩

/-- The entry with nothing but its span. -/
def bare (entry : Entry) : Entry :=
  ofSpan entry.span

/-- Another place leaves the span as it is. -/
@[simp]
theorem span_renumbered (rename : Nat → Nat) (entry : Entry) :
    (entry.renumbered rename).span = entry.span :=
  rfl

/-- What is left of a bare entry is its span. -/
@[simp]
theorem span_bare (entry : Entry) : entry.bare.span = entry.span :=
  rfl

/-- Entries in the order of nesting have spans in the order of nesting. -/
theorem Before.nestsFirst {a b : Entry} (first : a.Before b) : a.span.NestsFirst b.span := by
  rw [before_iff] at first
  simp only [Span.NestsFirst, UInt64.lt_iff_toNat_lt, UInt64.le_iff_toNat_le, ← UInt64.toNat_inj]
  omega

/-- Only the order of copies of one span depends on the places. -/
theorem Before.renumbered {rename : Nat → Nat} {a b : Entry} (first : a.Before b)
    (keeps : a.span = b.span → a.index < b.index → rename a.index < rename b.index) :
    (a.renumbered rename).Before (b.renumbered rename) := by
  rcases first with begins | ⟨begins, ends | ⟨ends, index⟩⟩
  · exact .inl begins
  · exact .inr ⟨begins, .inl ends⟩
  · exact .inr ⟨begins, .inr ⟨ends, keeps ((Span.eq_iff _ _).mpr ⟨begins, ends⟩) index⟩⟩

end Entry

namespace Nesting

/-- Two nestings are alike if their entries in the order of nesting are. -/
theorem map_eq_of_labels {f k : Entry → Entry} (f_span : ∀ entry, (f entry).span = entry.span)
    (k_span : ∀ entry, (k entry).span = entry.span) {g h : Grove Entry}
    {start stop first last : UInt64} (left : g.Within Entry.span start stop)
    (right : h.Within Entry.span first last) (labels : g.labels.map f = h.labels.map k) :
    g.map f = h.map k := by
  rw [← group_labels left, ← group_labels right, ← group_map f_span, ← group_map k_span, labels]

section Orders

variable {entries others : List Entry} {start stop first last : UInt64}
  {nesting other : Grove Entry} (nests : Nests entries start stop nesting)
  (otherNests : Nests others first last other)

include nests otherNests

/-- The spans in the order of nesting do not depend on the order of emission. -/
theorem map_span_labels_eq (same : (others.map Entry.span).Perm (entries.map Entry.span)) :
    other.labels.map Entry.span = nesting.labels.map Entry.span := by
  have sorted : ∀ list : List Entry, list.Pairwise Entry.Before →
      (list.map Entry.span).Pairwise Span.NestsFirst :=
    fun list before => List.pairwise_map.mpr (before.imp Entry.Before.nestsFirst)
  refine List.Perm.eq_of_pairwise (fun a b _ _ => Span.NestsFirst.antisymm)
    (sorted _ otherNests.sorted) (sorted _ nests.sorted) ?_
  rw [nests.labels, otherNests.labels]
  calc (others.mergeSort Entry.comesFirst).map Entry.span
    _ ~ others.map Entry.span := (List.mergeSort_perm _ _).map _
    _ ~ entries.map Entry.span := same
    _ ~ (entries.mergeSort Entry.comesFirst).map Entry.span :=
      (List.mergeSort_perm _ _).symm.map _

/-- Nor do the entries up to their places, if these change so that copies of one span keep their
order. -/
theorem map_renumbered_labels_eq {rename : Nat → Nat}
    (same : (others.map (Entry.renumbered rename)).Perm entries)
    (keeps : ∀ a ∈ others, ∀ b ∈ others, a.span = b.span → a.index < b.index →
      rename a.index < rename b.index) :
    other.labels.map (Entry.renumbered rename) = nesting.labels := by
  have sorted : (other.labels.map (Entry.renumbered rename)).Pairwise Entry.Before := by
    refine List.pairwise_map.mpr (otherNests.sorted.imp_of_mem ?_)
    intro a b left right before
    rw [otherNests.labels, List.mem_mergeSort] at left right
    exact before.renumbered (keeps a left b right)
  refine List.Perm.eq_of_pairwise (fun a b _ _ first second => absurd second first.asymm)
    sorted nests.sorted ?_
  rw [nests.labels, otherNests.labels]
  calc (others.mergeSort Entry.comesFirst).map (Entry.renumbered rename)
    _ ~ others.map (Entry.renumbered rename) := (List.mergeSort_perm _ _).map _
    _ ~ entries := same
    _ ~ entries.mergeSort Entry.comesFirst := (List.mergeSort_perm _ _).symm

end Orders

end Nesting

namespace Coverage

namespace Segment

/-- The span of a segment, and whether it stands for a tag or for a gap, else for the file. -/
def outline (segment : Segment) : Span × Bool × Bool :=
  (segment.span, segment.isTag, segment.isFragment)

/-- The segment of a tag that has another place in the order of emission. -/
def renumbered (rename : Nat → Nat) (segment : Segment) : Segment :=
  match segment.origin with
  | .tag index => { segment with origin := .tag (rename index) }
  | _ => segment

/-- A label does not show the place in the order of emission. -/
@[simp]
theorem label_renumbered (fragmentLabel : String) (rename : Nat → Nat) (segment : Segment) :
    (segment.renumbered rename).label fragmentLabel = segment.label fragmentLabel := by
  obtain ⟨span, kind, description, origin⟩ := segment
  cases origin <;> rfl

end Segment

section Map

variable {β : Type} (f : Entry → Entry) (image moved : Segment → β)
  (f_span : ∀ entry, (f entry).span = entry.span)
  (tag : ∀ entry, image (.ofEntry entry) = moved (.ofEntry (f entry)))
  (gap : ∀ span, image (.fragment span) = moved (.fragment span))

include gap in
/-- Groves with the same image still have it with the same gap in front. -/
theorem map_gapBefore (start stop : UInt64) {beside others : Grove Segment}
    (same : beside.map image = others.map moved) :
    (gapBefore start stop beside).map image = (gapBefore start stop others).map moved := by
  unfold gapBefore
  split
  · rw [Grove.map, Grove.map, gap, same]
    rfl
  · exact same

include f_span tag gap

/-- A change of entries that keeps their spans changes only what is seen of the tags. -/
theorem map_tile (cursor stop : UInt64) (nesting : Grove Entry) :
    (tile cursor stop nesting).map image = (tile cursor stop (nesting.map f)).map moved := by
  induction nesting generalizing cursor stop with
  | nil => exact map_gapBefore image moved gap cursor stop rfl
  | node entry below beside inner later =>
    have lower : (tileBelow entry below).map image =
        (tileBelow (f entry) (below.map f)).map moved := by
      unfold tileBelow
      rw [Grove.isEmpty_map, f_span]
      split
      · rfl
      · exact inner entry.span.start entry.span.stop
    rw [Grove.map, tile_node, tile_node, f_span]
    refine map_gapBefore image moved gap cursor entry.span.start ?_
    rw [Grove.map, Grove.map, tag, lower, later]

/-- A change of entries that keeps their spans changes only what is seen of the tags, whether gaps
are filled or not. -/
theorem map_tree_ofNesting (file : ∀ span, image (.file span) = moved (.file span)) (span : Span)
    (fillGaps : Bool) (nesting : Grove Entry) :
    (ofNesting span fillGaps nesting).tree.map image =
      (ofNesting span fillGaps (nesting.map f)).tree.map moved := by
  have segments : (ofNesting span fillGaps nesting).segments.map image =
      (ofNesting span fillGaps (nesting.map f)).segments.map moved := by
    unfold ofNesting
    cases fillGaps with
    | true => exact map_tile f image moved f_span tag gap span.start span.stop nesting
    | false => simp only [Bool.false_eq_true, ↓reduceIte, Grove.map_map, tag]
  unfold tree Grove.tree
  rw [Grove.map, Grove.map, segments]
  exact congrArg (fun top => Grove.node top _ _) (file span)

end Map

section Nestings

variable {nesting other : Grove Entry} {start stop first last : UInt64}
  (within : nesting.Within Entry.span start stop) (otherWithin : other.Within Entry.span first last)

include within otherWithin

/-- The outline of a coverage depends on the spans alone. -/
theorem outline_eq_of_spans
    (spans : other.labels.map Entry.span = nesting.labels.map Entry.span) (span : Span)
    (fillGaps : Bool) :
    (ofNesting span fillGaps other).tree.map Segment.outline =
      (ofNesting span fillGaps nesting).tree.map Segment.outline := by
  have seen : ∀ g : Grove Entry, (ofNesting span fillGaps g).tree.map Segment.outline =
      (ofNesting span fillGaps (g.map Entry.bare)).tree.map Segment.outline :=
    map_tree_ofNesting Entry.bare Segment.outline Segment.outline Entry.span_bare (fun _ => rfl)
      (fun _ => rfl) (fun _ => rfl) span fillGaps
  have labels := congrArg (List.map Entry.ofSpan) spans
  rw [List.map_map, List.map_map] at labels
  have bare : other.map Entry.bare = nesting.map Entry.bare :=
    Nesting.map_eq_of_labels Entry.span_bare Entry.span_bare otherWithin within labels
  rw [seen other, seen nesting, bare]

/-- Entries at other places make the same coverage but for these places. -/
theorem renumbered_eq_of_labels {rename : Nat → Nat}
    (labels : other.labels.map (Entry.renumbered rename) = nesting.labels) (span : Span)
    (fillGaps : Bool) :
    (ofNesting span fillGaps other).tree.map (Segment.renumbered rename) =
      (ofNesting span fillGaps nesting).tree := by
  have seen : (ofNesting span fillGaps other).tree.map (Segment.renumbered rename) =
      (ofNesting span fillGaps (other.map (Entry.renumbered rename))).tree.map id :=
    map_tree_ofNesting (Entry.renumbered rename) (Segment.renumbered rename) id
      (Entry.span_renumbered rename) (fun _ => rfl) (fun _ => rfl) (fun _ => rfl) span fillGaps
      other
  rw [← List.map_id nesting.labels] at labels
  have moved : other.map (Entry.renumbered rename) = nesting.map id :=
    Nesting.map_eq_of_labels (Entry.span_renumbered rename) (fun _ => rfl) otherWithin within labels
  rw [seen, moved, Grove.map_id, Grove.map_id]

end Nestings

section Alike

variable {coverage other : Coverage}

/-- Coverages of one outline have the same counts, depth and leaf spans. -/
theorem counts_of_outline
    (outline : other.tree.map Segment.outline = coverage.tree.map Segment.outline) :
    other.nodeCount = coverage.nodeCount ∧ other.fragmentCount = coverage.fragmentCount ∧
      other.depth = coverage.depth ∧
      other.leaves.map Segment.span = coverage.leaves.map Segment.span := by
  refine ⟨?_, ?_, ?_, ?_⟩
  · simpa [nodeCount] using congrArg Grove.size outline
  · have segments := (Grove.node.inj outline).2.1
    have labels := congrArg (fun g => g.labels.countP fun seen => seen.2.2) segments
    simpa [fragmentCount, List.countP_map, Function.comp_def, Segment.outline] using labels
  · simpa [depth] using congrArg Grove.height outline
  · have leaves := congrArg (fun g => g.leaves.map Prod.fst) outline
    simpa [Coverage.leaves, Function.comp_def, Segment.outline] using leaves

/-- Coverages that are the same but for the places of the tags are drawn alike. -/
theorem drawing_of_renumbered {rename : Nat → Nat}
    (same : other.tree.map (Segment.renumbered rename) = coverage.tree) (fragmentLabel : String) :
    other.drawing fragmentLabel = coverage.drawing fragmentLabel ∧
      other.leafLines fragmentLabel = coverage.leafLines fragmentLabel := by
  obtain ⟨file, segments, -⟩ := Grove.node.inj same
  have span : other.span = coverage.span := congrArg Segment.span file
  constructor
  · rw [drawing, drawing, Grove.drawTree, Grove.drawTree, span, ← segments, Grove.drawBelow_map]
    simp only [Segment.label_renumbered]
  · have leaves := congrArg (fun g => g.leaves.map (Segment.label fragmentLabel)) same
    simpa [leafLines, Coverage.leaves, Function.comp_def] using leaves

end Alike

end Coverage

namespace Entry

variable {tags moved : List Tag}

/-- Tags in another order have the same spans that hold an offset. -/
theorem map_span_proper_perm (permuted : moved.Perm tags) :
    ((proper moved).map span).Perm ((proper tags).map span) := by
  have spans : ∀ tags : List Tag, (proper tags).map span =
      (tags.filter fun tag => ¬ tag.span.Degenerate).map Tag.span := by
    intro tags
    rw [← map_tag_proper, List.map_map]
    rfl
  rw [spans, spans]
  exact (permuted.filter _).map Tag.span

/-- The entries of tags in another order are the same but for their places. -/
theorem map_renumbered_proper_perm {rename : Equiv.Perm Nat}
    (places : ∀ index, moved[index]? = tags[rename index]?) :
    ((proper moved).map (renumbered rename)).Perm (proper tags) := by
  have nodup : ((proper moved).map (renumbered rename)).Nodup := by
    refine List.pairwise_map.mpr ((pairwise_index_proper moved).imp ?_)
    intro a b different same
    exact different (rename.injective (congrArg Entry.index same))
  have distinct : (proper tags).Nodup :=
    (pairwise_index_proper tags).imp fun different same => different (congrArg Entry.index same)
  refine (List.perm_ext_iff_of_nodup nodup distinct).mpr fun entry => ?_
  simp only [List.mem_map, mem_proper, places]
  constructor
  · rintro ⟨before, found, rfl⟩
    exact found
  · intro found
    refine ⟨⟨rename.symm entry.index, entry.tag⟩, ?_, ?_⟩
    · simpa [Entry.span] using found
    · simp [renumbered]

end Entry

namespace Coverage

/-- A coverage can be built from tags in one order if and only if it can in any other, and then the
coverages have the same shape: the same spans, and tags, fragments and the file in the same places.
If copies of one span keep their order, the coverages are the same but for the places of the tags in
the order of emission, so their drawings and the lines of their leaves are the same. -/
theorem build_emission {tags moved : List Tag} (permuted : moved.Perm tags) (span : Span)
    (options : Options) :
    ((∃ other, (build moved span options).2 = .ok other) ↔
      ∃ coverage, (build tags span options).2 = .ok coverage) ∧
    ∀ coverage other, (build tags span options).2 = .ok coverage →
      (build moved span options).2 = .ok other →
        (other.tree.map Segment.outline = coverage.tree.map Segment.outline ∧
          other.nodeCount = coverage.nodeCount ∧ other.fragmentCount = coverage.fragmentCount ∧
          other.depth = coverage.depth ∧
          other.leaves.map Segment.span = coverage.leaves.map Segment.span) ∧
        ∀ rename : Equiv.Perm Nat, (∀ index, moved[index]? = tags[rename index]?) →
          (∀ a b first second, a < b → moved[a]? = some first → moved[b]? = some second →
            first.span = second.span → rename a < rename b) →
          other.tree.map (Segment.renumbered rename) = coverage.tree ∧
            ∀ fragmentLabel, other.drawing fragmentLabel = coverage.drawing fragmentLabel ∧
              other.leafLines fragmentLabel = coverage.leafLines fragmentLabel := by
  refine ⟨by simp only [exists_build_iff, permuted.mem_iff], ?_⟩
  intro coverage other built otherBuilt
  obtain ⟨nesting, nests, rfl⟩ := of_build built
  obtain ⟨reordered, otherNests, rfl⟩ := of_build otherBuilt
  have spans := Nesting.map_span_labels_eq nests otherNests (Entry.map_span_proper_perm permuted)
  have outline := outline_eq_of_spans nests.within otherNests.within spans span options.fillGaps
  refine ⟨⟨outline, counts_of_outline outline⟩, ?_⟩
  intro rename places keeps
  have labels : reordered.labels.map (Entry.renumbered rename) = nesting.labels := by
    refine Nesting.map_renumbered_labels_eq nests otherNests
      (Entry.map_renumbered_proper_perm places) ?_
    intro a left b right same first
    exact keeps a.index b.index a.tag b.tag first (Entry.mem_proper.mp left).1
      (Entry.mem_proper.mp right).1 same
  have same := renumbered_eq_of_labels nests.within otherNests.within labels span options.fillGaps
  exact ⟨same, drawing_of_renumbered same⟩

/-- The tags of `nestedCopies` with the outer one first. -/
def outerFirst : List Tag :=
  [.raw 2 10 "outer", .raw 4 6 "inner", .raw 2 10 "copy", .raw 12 12 "empty"]

/-- With the outer one of `nestedCopies` first, the outline and the drawing are the same, and the
tree is the same but for the two places that were exchanged. -/
theorem build_emission_outerFirst :
    outerFirst.Perm nestedCopies ∧
      ∃ other, (build outerFirst ⟨0, 16⟩ ⟨true, .skip⟩).2 = .ok other ∧
        other.tree.map Segment.outline = nestedCopiesCoverage.tree.map Segment.outline ∧
        other.tree.map (Segment.renumbered (Equiv.swap 0 1)) = nestedCopiesCoverage.tree ∧
        other.drawing "gap" = nestedCopiesCoverage.drawing "gap" := by
  have permuted : outerFirst.Perm nestedCopies := by decide
  have places : ∀ index, outerFirst[index]? = nestedCopies[Equiv.swap 0 1 index]? := by
    intro index
    match index with
    | 0 | 1 => rfl
    | index + 2 => rw [Equiv.swap_apply_of_ne_of_ne (by omega) (by omega)]; rfl
  have keeps : ∀ a b first second, a < b → outerFirst[a]? = some first →
      outerFirst[b]? = some second → first.span = second.span →
        Equiv.swap 0 1 a < Equiv.swap 0 1 b := by
    have pairs : ∀ b < 4, ∀ a < b,
        outerFirst[a]?.map Tag.span = outerFirst[b]?.map Tag.span →
          Equiv.swap 0 1 a < Equiv.swap 0 1 b := by
      decide
    intro a b first second less left right same
    have bound := (List.getElem?_eq_some_iff.mp right).1
    exact pairs b bound a less (by rw [left, right, Option.map_some, Option.map_some, same])
  have built := congrArg Prod.snd build_nestedCopies
  obtain ⟨succeeds, same⟩ := build_emission permuted ⟨0, 16⟩ ⟨true, .skip⟩
  obtain ⟨other, otherBuilt⟩ := succeeds.mpr ⟨_, built⟩
  obtain ⟨⟨outline, -⟩, renumbered⟩ := same _ other built otherBuilt
  obtain ⟨tree, drawn⟩ := renumbered (Equiv.swap 0 1) places keeps
  exact ⟨permuted, other, otherBuilt, outline, tree, (drawn "gap").1⟩

end Coverage

end Laminar
