import Laminar.Proofs.Coverage.Fragments
import Laminar.Proofs.Coverage.Skipping
import Laminar.Proofs.Nesting.Degenerate

/-!
# Files that reach beyond their tags

A file that ends after the last of its tags has the coverage of one that ends with it, and one more
fragment (`ofNesting_widened`). Tags that are left out have no part in the nesting, so this is all
that they do if they move the end of the file.
-/

namespace Laminar

/-- The greatest of some values is no more than a bound if none of them is. -/
theorem foldl_max_le_iff {α : Type} (value : α → UInt64) (list : List α) (start bound : UInt64) :
    list.foldl (fun last x => max last (value x)) start ≤ bound ↔
      start ≤ bound ∧ ∀ x ∈ list, value x ≤ bound := by
  induction list generalizing start with
  | nil => simp
  | cons x rest later =>
    have both : max start (value x) ≤ bound ↔ start ≤ bound ∧ value x ≤ bound := by
      simp only [UInt64.le_iff_toNat_le, UInt64.max_def]
      split <;> omega
    rw [List.foldl_cons, later, both, List.forall_mem_cons, and_assoc]

namespace Nesting

/-- How far the trees reach, from a cursor on. -/
def reach (cursor : UInt64) (nesting : Grove Entry) : UInt64 :=
  nesting.roots.foldl (fun last entry => max last entry.span.stop) cursor

/-- The trees of a nesting reach as far as all of its tags. -/
theorem reach_ofEntries {tags : List Tag} {nesting : Grove Entry}
    (nested : ofEntries (Entry.numbered 0 tags) = .ok nesting) :
    reach 0 nesting = tags.foldl (fun last tag => max last tag.span.stop) 0 := by
  have labels := labels_perm_of_ofEntries nested
  have enclosed := (of_ofEntries nested).2
  apply UInt64.le_antisymm
  · refine (foldl_max_le_iff _ _ _ _).mpr ⟨UInt64.zero_le, fun root top => ?_⟩
    have emitted := labels.mem_iff.mp ((Grove.roots_sublist_labels nesting).subset top)
    have bounded := ((foldl_max_le_iff (fun tag : Tag => tag.span.stop) tags 0 _).mp
      (UInt64.le_refl _)).2
    exact bounded root.tag (Entry.tag_mem_of_mem_numbered emitted)
  · refine (foldl_max_le_iff _ _ _ _).mpr ⟨UInt64.zero_le, fun tag present => ?_⟩
    obtain ⟨entry, emitted, rfl⟩ := Entry.exists_mem_numbered present
    have bounded := ((foldl_max_le_iff (fun root : Entry => root.span.stop) nesting.roots 0 _).mp
      (UInt64.le_refl _)).2
    exact stop_le_of_roots enclosed bounded entry (labels.mem_iff.mpr emitted)

end Nesting

namespace Coverage

/-! ## A later end -/

/-- The coverage of a file that ends at `stop` instead: what lies between the ends is a fragment, if
gaps are filled. -/
def widened (fillGaps : Bool) (stop : UInt64) (coverage : Coverage) : Coverage :=
  ⟨⟨coverage.span.start, stop⟩,
    coverage.segments ++ if fillGaps then gapBefore coverage.span.stop stop .nil else .nil⟩

/-- Trees after a gap may be added before or after it is put in front. -/
theorem gapBefore_append (start stop : UInt64) (beside more : Grove Segment) :
    gapBefore start stop beside ++ more = gapBefore start stop (beside ++ more) := by
  unfold gapBefore
  split <;> rfl

/-- There is no gap between the trees and where they end. -/
theorem gapBefore_self (stop : UInt64) (beside : Grove Segment) :
    gapBefore stop stop beside = beside :=
  if_neg (UInt64.lt_irrefl stop)

/-- What lies beyond the trees is one gap. -/
theorem tile_reach (cursor stop : UInt64) (nesting : Grove Entry) :
    tile cursor stop nesting =
      tile cursor (Nesting.reach cursor nesting) nesting ++
        gapBefore (Nesting.reach cursor nesting) stop .nil := by
  induction nesting generalizing cursor with
  | nil =>
    show gapBefore cursor stop .nil = gapBefore cursor cursor .nil ++ gapBefore cursor stop .nil
    rw [gapBefore_self, Grove.nil_append]
  | node entry below beside _ later =>
    rw [tile_node, tile_node, gapBefore_append, Grove.node_append, later]
    rfl

/-- A file that ends where its coverage does is not widened. -/
theorem widened_self (fillGaps : Bool) (coverage : Coverage) :
    coverage.widened fillGaps coverage.span.stop = coverage := by
  rw [widened, gapBefore_self, ite_self, Grove.append_nil]

/-- A file that ends after its tags has the coverage of one that ends with them, widened. -/
theorem ofNesting_widened (start stop : UInt64) (fillGaps : Bool) (nesting : Grove Entry) :
    ofNesting ⟨start, stop⟩ fillGaps nesting =
      (ofNesting ⟨start, Nesting.reach start nesting⟩ fillGaps nesting).widened fillGaps stop := by
  cases fillGaps with
  | true => exact congrArg (Coverage.mk ⟨start, stop⟩) (tile_reach start stop nesting)
  | false => exact congrArg (Coverage.mk ⟨start, stop⟩) (Grove.append_nil _).symm

/-! ## Builds -/

/-- If all tags pass admission, a coverage is built from the nesting of those that hold an
offset. -/
theorem snd_build_of_passes {tags : List Tag} {span : Span} {options : Options}
    (passes : ∀ tag ∈ tags, Passes span options.degenerate tag.span) :
    (build tags span options).2 =
      (Nesting.ofEntries (Entry.proper tags)).map (ofNesting span options.fillGaps) := by
  obtain ⟨admitted, admits⟩ := (exists_admission_iff span options.degenerate _).mpr
    ((Entry.forall_mem_numbered_iff (fun tag => Passes span options.degenerate tag.span) 0 tags).mpr
      passes)
  obtain ⟨rfl, -⟩ := of_admission admits
  rw [snd_build, admits]
  rfl

end Coverage

end Laminar
