import Laminar.Proofs.Command.FileSpan
import Laminar.Proofs.Grove.Links

/-!
# The span that tags need

Without a size or a file the span of a file ends with the last of its tags, so admission never
refuses a tag for its bounds (`build_ne_outOfBounds`). The trees of a nesting follow one another, so
the last one reaches as far as all of them (`stop_last_root`), and behind it there is nothing to
fill (`last_root_tile`): the last child of the root is a tag that ends with the file
(`build_default_span`).
-/

namespace Laminar

namespace Nesting

/-- The last tree reaches as far as all of them. -/
theorem stop_last_root {start stop : UInt64} {nesting : Grove Entry} {last : Entry}
    (within : nesting.Within Entry.span start stop) (ends : nesting.roots.getLast? = some last) :
    last.span.stop = reach start nesting := by
  obtain ⟨earlier, split⟩ := List.getLast?_eq_some_iff.mp ends
  have inside (root : Entry) (top : root ∈ nesting.roots) :
      start ≤ root.span.start ∧ root.span.start < root.span.stop := by
    have bounds := within.inside root ((Grove.roots_sublist_labels nesting).subset top)
    exact ⟨bounds.1, bounds.2.1⟩
  have present : last ∈ nesting.roots := List.mem_of_getLast? ends
  obtain ⟨first, proper⟩ := inside last present
  have bounds := (foldl_max_le_iff (fun root : Entry => root.span.stop) nesting.roots start _).mp
    (UInt64.le_refl (reach start nesting))
  apply UInt64.le_antisymm
  · exact bounds.2 last present
  · refine (foldl_max_le_iff _ _ _ _).mpr ⟨?_, fun root top => ?_⟩
    · exact UInt64.le_trans first (UInt64.le_of_lt proper)
    · -- Every other tree ends before the last one begins.
      have apart := within.pairwise_roots
      rw [split, List.pairwise_append] at apart
      rw [split, List.mem_append, List.mem_singleton] at top
      rcases top with before | rfl
      · have ended := apart.2.2 root before last (List.mem_singleton_self last)
        exact UInt64.le_trans ended (UInt64.le_of_lt proper)
      · exact UInt64.le_refl _

end Nesting

namespace Coverage

/-! ## Bounds -/

section Bounds

variable {bounds : Span} {policy : DegeneratePolicy}

/-- If the bounds enclose every entry that holds an offset, admission fails only because of an entry
that holds none. -/
theorem degenerate_of_admission {entries : List Entry} {error : HierarchyError}
    (enclosed : ∀ entry ∈ entries, bounds.Encloses entry.span)
    (failed : (admission bounds policy entries).2 = .error error) :
    ∃ entry ∈ entries,
      error = .degenerate entry.index entry.span entry.tag.description := by
  induction entries with
  | nil => contradiction
  | cons entry rest later =>
    obtain ⟨here, others⟩ := List.forall_mem_cons.mp enclosed
    by_cases degenerate : entry.span.Degenerate
    · cases policy with
      | reject =>
        simp only [admission, degenerate, ↓reduceIte] at failed
        exact ⟨entry, List.mem_cons_self, (Except.error.inj failed).symm⟩
      | skip =>
        simp only [admission, degenerate, ↓reduceIte] at failed
        obtain ⟨other, present, same⟩ := later others failed
        exact ⟨other, List.mem_cons_of_mem entry present, same⟩
    · simp only [admission, degenerate, here, ↓reduceIte] at failed
      cases outcome : (admission bounds policy rest).2 with
      | ok admitted =>
        rw [outcome] at failed
        contradiction
      | error found =>
        rw [outcome] at failed
        obtain rfl := Except.error.inj failed
        obtain ⟨other, present, same⟩ := later others outcome
        exact ⟨other, List.mem_cons_of_mem entry present, same⟩

/-- If the span of the file encloses all tags, none of them is out of bounds. -/
theorem build_ne_outOfBounds {tags : List Tag} {span : Span} {options : Options}
    (enclosed : ∀ tag ∈ tags, span.Encloses tag.span) (index : Nat) (inner outer : Span) :
    (build tags span options).2 ≠ .error (.outOfBounds index inner outer) := by
  intro failed
  simp only [build, bind_eq_error_iff] at failed
  rcases failed with refused | ⟨admitted, admits, crossed | ⟨nesting, -, made⟩⟩
  · have entries := (Entry.forall_mem_numbered_iff (fun tag => span.Encloses tag.span) 0 tags).mpr
      enclosed
    obtain ⟨entry, -, degenerate⟩ := degenerate_of_admission entries refused
    contradiction
  · obtain ⟨rfl, -⟩ := of_admission admits
    obtain ⟨a, -, b, -, crossing, -⟩ := Nesting.crosses_of_ofEntries
      (Entry.pairwise_index_proper tags) Entry.start_lt_of_proper crossed
    contradiction
  · contradiction

end Bounds

/-! ## The last child -/

/-- A fragment in front is not the last tree where there are others. -/
theorem getLast?_roots_gapBefore (start stop : UInt64) {beside : Grove Segment}
    (trees : beside.roots ≠ []) :
    (gapBefore start stop beside).roots.getLast? = beside.roots.getLast? := by
  unfold gapBefore
  split
  · obtain ⟨first, others, roots⟩ := List.exists_cons_of_ne_nil trees
    rw [Grove.roots, roots, List.getLast?_cons_cons]
  · rfl

/-- Where a file ends with its last tree, no fragment stands behind that. -/
theorem last_root_tile (cursor : UInt64) (nesting : Grove Entry) :
    (tile cursor (Nesting.reach cursor nesting) nesting).roots.getLast? =
      nesting.roots.getLast?.map .ofEntry := by
  induction nesting generalizing cursor with
  | nil => exact congrArg (fun g : Grove Segment => g.roots.getLast?) (gapBefore_self cursor .nil)
  | node entry below beside _ later =>
    have rest := later (max cursor entry.span.stop)
    have reached : Nesting.reach cursor (.node entry below beside) =
        Nesting.reach (max cursor entry.span.stop) beside := rfl
    rw [tile_node, getLast?_roots_gapBefore _ _ (by simp [Grove.roots]), reached, Grove.roots,
      Grove.roots, List.getLast?_cons, List.getLast?_cons, rest, Option.getD_map, Option.map_some]

/-- The last child of a file that ends with its tags is the last of their trees, filled or not. -/
theorem last_segment (start : UInt64) (fillGaps : Bool) (nesting : Grove Entry) :
    (ofNesting ⟨start, Nesting.reach start nesting⟩ fillGaps nesting).segments.roots.getLast? =
      nesting.roots.getLast?.map .ofEntry := by
  cases fillGaps with
  | true => exact last_root_tile start nesting
  | false =>
    show (nesting.map _).roots.getLast? = _
    rw [Grove.roots_map, List.getLast?_map]

end Coverage

namespace Command

open Coverage (build)

/-- If all tags hold an offset, the last child of the root is one of them and ends with the file.
There is a last root, since a nesting without trees has no tags. -/
theorem last_child_of_build {tags : List Tag} {options : Coverage.Options} {coverage : Coverage}
    (some_tag : tags ≠ []) (proper : ∀ tag ∈ tags, tag.span.start < tag.span.stop)
    (built : (build tags ⟨0, lastStop tags⟩ options).2 = .ok coverage) :
    ∃ last ∈ Entry.numbered 0 tags,
      coverage.segments.roots.getLast? = some (.ofEntry last) ∧
        last.span.stop = lastStop tags := by
  have all : Entry.proper tags = Entry.numbered 0 tags := by
    refine List.filter_eq_self.mpr fun entry emitted => decide_eq_true ?_
    exact (Span.not_degenerate_iff _).mpr (proper _ (Entry.tag_mem_of_mem_numbered emitted))
  obtain ⟨⟨admitted, admits⟩, nesting, nested, rfl⟩ := Coverage.build_eq_ok_iff.mp built
  have nests : Nesting.Nests (Entry.proper tags) 0 (lastStop tags) nesting := by
    have kept := (Coverage.of_admission admits).1
    exact Coverage.nests_of_admission admits (kept ▸ nested)
  rw [all] at nested nests
  have reached : Nesting.reach 0 nesting = lastStop tags := Nesting.reach_ofEntries nested
  have labels := Nesting.labels_perm_of_ofEntries nested
  cases ends : nesting.roots.getLast? with
  | none =>
    have bare : nesting = .nil := (Grove.isEmpty_iff_eq_nil nesting).mp
      ((Grove.isEmpty_iff_roots nesting).mpr (List.getLast?_eq_none_iff.mp ends))
    rw [bare] at labels
    have length := labels.length_eq
    rw [Entry.length_numbered] at length
    exact absurd (List.eq_nil_of_length_eq_zero length.symm) some_tag
  | some last =>
    have present := (Grove.roots_sublist_labels nesting).subset (List.mem_of_getLast? ends)
    refine ⟨last, labels.mem_iff.mp present, ?_, ?_⟩
    · rw [← reached, Coverage.last_segment, ends, Option.map_some]
    · rw [Nesting.stop_last_root nests.within ends, reached]

/-- Without a size or a file there is a span for any tags, and no tag is out of its bounds. If there
are tags and all of them hold an offset, the last child of the root is one of them, however deep
those lie that reach furthest. It ends with the file, whether gaps are filled or not. -/
theorem build_default_span (host : Host) (tags : List Tag) (options : Coverage.Options) :
    ∃ span, fileSpan host {} tags = .ok span ∧
      (∀ index inner outer,
        (build tags span options).2 ≠ .error (.outOfBounds index inner outer)) ∧
      (tags ≠ [] → (∀ tag ∈ tags, tag.span.start < tag.span.stop) →
        ∀ coverage, (build tags span options).2 = .ok coverage → coverage.span = span ∧
          ∃ last, coverage.segments.roots.getLast? = some last ∧ last.isTag = true ∧
            last.isFragment = false ∧ last.toTag ∈ tags ∧ last.span.stop = span.stop) := by
  have enclosed := encloses_of_lastStop_le (UInt64.le_refl (lastStop tags))
  refine ⟨⟨0, lastStop tags⟩, rfl, Coverage.build_ne_outOfBounds enclosed, ?_⟩
  intro some_tag proper coverage built
  obtain ⟨last, emitted, ends, reaches⟩ := last_child_of_build some_tag proper built
  obtain ⟨nesting, -, rfl⟩ := Coverage.of_build built
  exact ⟨rfl, .ofEntry last, ends, Coverage.Segment.isTag_ofEntry last,
    Coverage.Segment.isFragment_ofEntry last, Entry.tag_mem_of_mem_numbered emitted, reaches⟩

/-- Tags of which the one that is emitted first reaches as far as the one that encloses it. -/
def innerReachesEnd : List Tag :=
  [.raw 8 16 "inner", .raw 2 16 "outer", .raw 0 1 "first"]

/-- The tag that encloses it is the last child, with the gap before it filled. -/
theorem build_default_span_innerReachesEnd :
    fileSpan (onlyText "") {} innerReachesEnd = .ok ⟨0, 16⟩ ∧
      ∃ coverage, (build innerReachesEnd ⟨0, 16⟩ ⟨true, .reject⟩).2 = .ok coverage ∧
        coverage.span = ⟨0, 16⟩ ∧
          ∃ last, coverage.segments.roots.getLast? = some last ∧ last.isTag = true ∧
            last.toTag ∈ innerReachesEnd ∧ last.span.stop = 16 := by
  have ends : fileSpan (onlyText "") {} innerReachesEnd = .ok ⟨0, 16⟩ := by decide
  obtain ⟨coverage, built⟩ : ∃ coverage,
      (build innerReachesEnd ⟨0, 16⟩ ⟨true, .reject⟩).2 = .ok coverage :=
    Coverage.exists_build_iff.mpr ⟨by decide, by decide⟩
  obtain ⟨span, found, -, last_child⟩ :=
    build_default_span (onlyText "") innerReachesEnd ⟨true, .reject⟩
  obtain rfl : ⟨0, 16⟩ = span := Except.ok.inj (ends.symm.trans found)
  obtain ⟨whole, last, there, tagged, -, listed, reaches⟩ :=
    last_child (by decide) (by decide) coverage built
  exact ⟨ends, coverage, built, whole, last, there, tagged, listed, reaches⟩

end Command

end Laminar
