import Laminar.Proofs.Coverage.Linked
import Laminar.Proofs.Grove.Drawing
import Laminar.Proofs.Grove.Numbering
import Laminar.Proofs.NodeStore.Places
import Laminar.Proofs.Numeral

/-!
# Coverages read off their drawings

The line for a segment begins with the bracket of its span, and nothing else that is drawn before
it has one (`Segment.bracketed_label`). So a printed coverage has a line for each node that a walk
meets, with the number of nodes above it and its text, and two coverages that are printed alike have
the same shape and the same texts (`LinkedCoverage.printed_alike`).
-/

namespace Laminar

/-! ## Texts of segments -/

namespace Numeral

/-- No digit is a line feed. -/
theorem single_digits {base : Nat} (proper : 2 ≤ base) (bounded : base ≤ 36) (n : Nat) :
    '\n' ∉ (digits base n).map upperDigit := by
  intro present
  obtain ⟨d, digit, same⟩ := List.mem_map.mp present
  have below := Nat.lt_of_lt_of_le (lt_of_mem_digits proper d digit) bounded
  have value := digitValue?_upperDigit below
  rw [same] at value
  contradiction

/-- A number in decimal has no line feed. -/
theorem single_decimal (n : Nat) : '\n' ∉ (decimal n).toList := by
  rw [decimal, String.toList_ofList]
  exact single_digits (by decide) (by decide) n

/-- A number in hexadecimal has no line feed. -/
theorem single_upperHex (n : Nat) : '\n' ∉ (upperHex n).toList := by
  have digits : '\n' ∉ upperHexDigits n := single_digits (by decide) (by decide) n
  rw [upperHex, String.toList_ofList]
  simp [digits]

end Numeral

namespace Coverage.Segment

/-- The texts of a segment have no line feed. -/
structure Single (segment : Segment) : Prop where
  /-- The code of the kind has none. -/
  kind : '\n' ∉ segment.kind.code.toList
  /-- The description has none. -/
  description : '\n' ∉ segment.description.toList

/-- Whether the texts of a segment have a line feed can be computed. -/
instance (segment : Segment) : Decidable segment.Single :=
  decidable_of_iff ('\n' ∉ segment.kind.code.toList ∧ '\n' ∉ segment.description.toList)
    ⟨fun both => ⟨both.1, both.2⟩, fun single => ⟨single.kind, single.description⟩⟩

/-- A length is shown without a line feed. -/
theorem single_lengthText (length : UInt64) : '\n' ∉ (lengthText length).toList := by
  unfold lengthText
  split
  · exact Numeral.single_decimal _
  · exact Numeral.single_upperHex _

/-- The words for a segment have no line feed if its texts and the label of fragments have none. -/
theorem single_caption {segment : Segment} (single : segment.Single) {fragmentLabel : String}
    (plain : '\n' ∉ fragmentLabel.toList) : '\n' ∉ (segment.caption fragmentLabel).toList := by
  unfold caption
  split
  · decide
  · exact plain
  · unfold Tag.caption
    split
    · exact single.kind
    · simp [single.kind, single.description]

/-- The line for a segment begins with the bracket of its span. -/
theorem bracketed_label {segment : Segment} (single : segment.Single) {fragmentLabel : String}
    (plain : '\n' ∉ fragmentLabel.toList) : Grove.Bracketed (segment.label fragmentLabel) := by
  refine ⟨⟨_, by simp [label, Span.text]; rfl⟩, ?_⟩
  simp [label, Span.text, Numeral.single_upperHex, single_lengthText, single_caption single plain]

end Coverage.Segment

namespace LinkedCoverage

open Coverage (Segment)

/-! ## Trees of texts -/

/-- A coverage has been put together from tags. -/
def IsBuilt (coverage : LinkedCoverage) : Prop :=
  ∃ tags span options, (build tags span options).2 = .ok coverage

/-- No text of a coverage has a line feed, nor has the label of fragments. -/
structure Single (coverage : LinkedCoverage) (fragmentLabel : String) : Prop where
  /-- The label of fragments has none. -/
  plain : '\n' ∉ fragmentLabel.toList
  /-- The texts of the nodes have none. -/
  segments : ∀ segment ∈ coverage.visited, segment.Single

/-- Coverages that have been put together show coverages. -/
theorem IsBuilt.exists_shows {linked : LinkedCoverage} (built : linked.IsBuilt) :
    ∃ coverage, Shows linked coverage := by
  obtain ⟨tags, span, options, made⟩ := built
  obtain ⟨error, refused, -⟩ | ⟨other, coverage, same, -, shows⟩ :=
    (build_shows tags span options).2
  · exact absurd (made.symm.trans refused) (by simp)
  · obtain rfl := Except.ok.inj (made.symm.trans same)
    exact ⟨coverage, shows⟩

namespace Shows

variable {linked : LinkedCoverage} {coverage : Coverage} (shows : Shows linked coverage)

include shows

/-- The tree of the texts is that of the segments. -/
theorem textTree_eq (fragmentLabel : String) :
    linked.textTree fragmentLabel = coverage.tree.map (Segment.label fragmentLabel) := by
  have enough : coverage.tree.height ≤ linked.store.size := by
    calc coverage.tree.height
      _ ≤ coverage.tree.size := Grove.height_le_size _
      _ = linked.store.size := shows.nodeCount.symm
  have made := shows.unfolds.textTree_eq (Segment.label fragmentLabel) enough
  rwa [List.map_singleton, List.foldr_cons, List.foldr_nil, Grove.append_nil] at made

/-- What is drawn of a coverage is the drawing of the tree of the texts. -/
theorem drawing_eq (fragmentLabel : String) :
    coverage.drawing fragmentLabel = Grove.draw (linked.textTree fragmentLabel) := by
  rw [shows.textTree_eq]
  refine congrArg (fun lines => Grove.joinLines (_ :: lines)) ?_
  exact (Grove.drawBelow_map id (Segment.label fragmentLabel) "" coverage.segments).symm

variable {fragmentLabel : String}

/-- No text has a line feed if none of the segments of the coverage has one. -/
theorem single (plain : '\n' ∉ fragmentLabel.toList)
    (segments : ∀ segment ∈ coverage.tree.labels, segment.Single) : linked.Single fragmentLabel :=
  ⟨plain, shows.visited_eq ▸ segments⟩

/-- The texts begin with a bracket. -/
theorem bracketed (single : linked.Single fragmentLabel) :
    ∀ text ∈ (coverage.tree.map (Segment.label fragmentLabel)).labels, Grove.Bracketed text := by
  rw [Grove.labels_map, ← shows.visited_eq]
  refine List.forall_mem_map.mpr fun segment met => ?_
  exact Segment.bracketed_label (single.segments segment met) single.plain

end Shows

/-! ## Printed coverages -/

/-- A line shows the node in a slot: there are four characters for each node above it, none of them
an opening bracket, and then the text of the node. -/
def HasLine (coverage : LinkedCoverage) (fragmentLabel : String) (slot : Slot) (line : String) :
    Prop :=
  ∃ node above, ∃ margin : String, coverage.store.node? slot = some node ∧
    coverage.store.ancestors? slot = some above ∧ margin.length = 4 * above.length ∧
    '[' ∉ margin.toList ∧ line = margin ++ node.label.label fragmentLabel

/-- A line that shows the place of a node shows the node. -/
theorem hasLine_of_standsAt {coverage : LinkedCoverage} {slot : Slot} {place : Grove.Place Segment}
    {fragmentLabel line : String} (stands : coverage.store.StandsAt slot place)
    (shown : Grove.IsShownBy (place.map (Segment.label fragmentLabel)) line) :
    coverage.HasLine fragmentLabel slot line := by
  obtain ⟨node, here, label⟩ := Option.map_eq_some_iff.mp stands.label
  obtain ⟨above, ascends, labels⟩ := stands.above
  obtain ⟨margin, length, closed, -, rfl⟩ := shown
  have count : above.length = place.above.length := by
    have lengths := congrArg List.length labels
    rwa [List.length_map, List.length_map] at lengths
  refine ⟨node, above, margin, here, ascends.ancestors?_eq, ?_, closed, by rw [label]; rfl⟩
  rw [length, Grove.Place.map, List.length_map, count]

/-- Whatever printer it is that draws each text of a tree on a line of its own, what is printed of a
coverage has a line for each node that a walk meets, and two coverages that are printed alike have
the same shape and the same texts. -/
theorem printed_alike {print : Grove String → String} (draws : Grove.Draws print) :
    (∀ (coverage : LinkedCoverage) (fragmentLabel : String), coverage.IsBuilt →
      coverage.Single fragmentLabel →
      ∃ lines, print (coverage.textTree fragmentLabel) = Grove.joinLines lines ∧
        (∀ line ∈ lines, '\n' ∉ line.toList) ∧ lines.length = coverage.nodeCount ∧
        List.Forall₂ (coverage.HasLine fragmentLabel) coverage.store.preorder lines) ∧
    ∀ (coverage other : LinkedCoverage) (fragmentLabel otherLabel : String), coverage.IsBuilt →
      other.IsBuilt → coverage.Single fragmentLabel → other.Single otherLabel →
      print (coverage.textTree fragmentLabel) = print (other.textTree otherLabel) →
      ∃ tree otherTree, coverage.store.Unfolds [top] tree ∧ other.store.Unfolds [top] otherTree ∧
        tree.map (Segment.label fragmentLabel) = otherTree.map (Segment.label otherLabel) := by
  constructor
  · intro linked fragmentLabel built single
    obtain ⟨coverage, shows⟩ := built.exists_shows
    have few : coverage.tree.size ≤ linked.store.size := Nat.le_of_eq shows.nodeCount.symm
    have stood := shows.unfolds.preorder_places shows.root shows.parent few
    obtain ⟨lines, printed, apart, shown⟩ := draws.exists_lines fun text present =>
      (shows.bracketed single text present).single
    have places : (coverage.tree.map (Segment.label fragmentLabel)).places =
        coverage.tree.places.map (Grove.Place.map (Segment.label fragmentLabel)) :=
      Grove.placesBelow_map (Segment.label fragmentLabel) [] coverage.tree
    have beside : List.Forall₂ _ _ lines := places ▸ shown
    rw [List.forall₂_map_left_iff] at beside
    refine ⟨lines, by rw [shows.textTree_eq]; exact printed, apart, ?_, ?_⟩
    · calc lines.length
        _ = coverage.tree.places.length := beside.length_eq.symm
        _ = coverage.tree.size := by
          rw [← Grove.length_labels, ← Grove.map_label_places, List.length_map]
        _ = linked.nodeCount := shows.nodeCount.symm
    · refine (Grove.forall₂_comp stood beside).imp ?_
      rintro slot line ⟨place, stands, here⟩
      exact hasLine_of_standsAt stands here
  · intro linked other fragmentLabel otherLabel built otherBuilt single otherSingle same
    obtain ⟨coverage, shows⟩ := built.exists_shows
    obtain ⟨otherCoverage, otherShows⟩ := otherBuilt.exists_shows
    rw [shows.textTree_eq, otherShows.textTree_eq] at same
    exact ⟨_, _, shows.unfolds, otherShows.unfolds,
      draws.tree_eq (shows.bracketed single) (otherShows.bracketed otherSingle) same⟩

/-- A tag in another one, with a space in its code or in its description. -/
def spacedTags (code description : String) : List Tag :=
  [⟨⟨4, 6⟩, .verbatim code, description⟩, .raw 2 16 "outer"]

/-- The coverage of sixteen bytes by `spacedTags`. -/
def spacedCoverage (code description : String) : Coverage where
  span := ⟨0, 16⟩
  segments :=
    .node (.fragment ⟨0, 2⟩) .nil
      (.tree (.ofEntry ⟨1, .raw 2 16 "outer"⟩)
        (.node (.fragment ⟨2, 4⟩) .nil
          (.node (.ofEntry ⟨0, ⟨4, 6⟩, .verbatim code, description⟩) .nil
            (.tree (.fragment ⟨6, 16⟩) .nil))))

/-- The linked coverage built from `spacedTags` shows `spacedCoverage`, whatever the texts are. -/
theorem exists_spacedCoverage (code description : String) :
    ∃ linked, (build (spacedTags code description) ⟨0, 16⟩ {}).2 = .ok linked ∧
      Shows linked (spacedCoverage code description) := by
  have made : (Coverage.build (spacedTags code description) ⟨0, 16⟩ {}).2 =
      .ok (spacedCoverage code description) := by cbv
  obtain ⟨error, -, failed⟩ | ⟨linked, coverage, built, same, shows⟩ :=
    (build_shows (spacedTags code description) ⟨0, 16⟩ {}).2
  · rw [made] at failed
    contradiction
  · obtain rfl := Except.ok.inj (made.symm.trans same)
    exact ⟨linked, built, shows⟩

/-- A space that ends the code or begins the description is drawn alike. -/
theorem printed_alike_spaced :
    Grove.Draws Grove.draw ∧
      ∃ coverage other, (build (spacedTags "a" "b c") ⟨0, 16⟩ {}).2 = .ok coverage ∧
        (build (spacedTags "a b" "c") ⟨0, 16⟩ {}).2 = .ok other ∧
        coverage.Single "gap" ∧ other.Single "gap" ∧
        (∃ lines, Grove.draw (coverage.textTree "gap") = Grove.joinLines lines ∧
          (∀ line ∈ lines, '\n' ∉ line.toList) ∧ lines.length = 6 ∧
          List.Forall₂ (coverage.HasLine "gap") coverage.store.preorder lines) ∧
        Grove.draw (coverage.textTree "gap") = Grove.draw (other.textTree "gap") ∧
        ∃ tree otherTree, coverage.store.Unfolds [top] tree ∧ other.store.Unfolds [top] otherTree ∧
          tree.map (Segment.label "gap") = otherTree.map (Segment.label "gap") := by
  obtain ⟨coverage, built, shows⟩ := exists_spacedCoverage "a" "b c"
  obtain ⟨other, otherBuilt, otherShows⟩ := exists_spacedCoverage "a b" "c"
  have single : coverage.Single "gap" := shows.single (by decide) (by decide)
  have otherSingle : other.Single "gap" := otherShows.single (by decide) (by decide)
  have drawn : Grove.draw (coverage.textTree "gap") = Grove.draw (other.textTree "gap") := by
    rw [← shows.drawing_eq, ← otherShows.drawing_eq]
    decide +kernel
  obtain ⟨shown, alike⟩ := printed_alike Grove.draws_draw
  have count : coverage.nodeCount = 6 := shows.nodeCount
  refine ⟨Grove.draws_draw, coverage, other, built, otherBuilt, single, otherSingle, ?_, drawn, ?_⟩
  · rw [← count]
    exact shown coverage "gap" ⟨_, _, _, built⟩ single
  · exact alike coverage other "gap" "gap" ⟨_, _, _, built⟩ ⟨_, _, _, otherBuilt⟩ single
      otherSingle drawn

end LinkedCoverage

end Laminar
