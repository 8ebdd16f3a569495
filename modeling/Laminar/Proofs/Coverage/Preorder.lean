import Laminar.Proofs.Coverage.Flattening

/-!
# The order of the tags of a coverage

A walk through a coverage meets its tags in the order of nesting, whatever the order of emission and
whether gaps are filled or not. So what is found for a description is the first tag in that order
that has it (`build_preorder`).
-/

namespace Laminar

/-- The first member of an ordered list for which a condition holds comes before all others for
which it holds. -/
theorem eq_or_precedes_of_find? {α : Type} {precedes : α → α → Prop} {condition : α → Bool}
    {list : List α} {first : α} (ordered : list.Pairwise precedes)
    (found : list.find? condition = some first) :
    ∀ other ∈ list, condition other = true → other = first ∨ precedes first other := by
  obtain ⟨-, earlier, later, rfl, refused⟩ := List.find?_eq_some_iff_append.mp found
  intro other present holds
  rcases List.mem_append.mp present with missed | rest
  · exact absurd holds (by simpa using refused other missed)
  · rcases List.mem_cons.mp rest with rfl | after
    · exact .inl rfl
    · exact .inr ((List.pairwise_cons.mp (List.pairwise_append.mp ordered).2.1).1 other after)

namespace Coverage

/-- What is found for a description is found among the segments that a walk meets. -/
theorem map_label_find? (coverage : Coverage) (description : String) :
    (coverage.find? description).map Grove.Place.label =
      coverage.tree.labels.find? fun segment =>
        segment.isTag && segment.description == description := by
  rw [← Grove.map_label_places, List.find?_map]
  rfl

/-- What is found for a description is the first tag of the nesting that has it. -/
theorem map_label_find?_ofNesting (span : Span) (fillGaps : Bool) (nesting : Grove Entry)
    (description : String) :
    ((ofNesting span fillGaps nesting).find? description).map Grove.Place.label =
      (nesting.labels.find? fun entry => entry.tag.description == description).map .ofEntry := by
  have tags : ((ofNesting span fillGaps nesting).tree.labels.filter Segment.isTag).find?
      (fun segment => segment.description == description) =
        (ofNesting span fillGaps nesting).tree.labels.find? fun segment =>
          segment.isTag && segment.description == description := by
    rw [List.find?_filter]
    simp only [Bool.decide_and, Bool.decide_eq_true]
  rw [map_label_find?, ← tags, filter_isTag_labels_tree, List.find?_map]
  rfl

end Coverage

namespace LinkedCoverage

open Coverage (Segment ofNesting)

/-- The slot that is found for a description has the segment that is found in the coverage. -/
theorem Shows.map_label?_find? {linked : LinkedCoverage} {coverage : Coverage}
    (shows : Shows linked coverage) (description : String) :
    (linked.find? description).map linked.store.label? =
      ((coverage.find? description).map Grove.Place.label).map some := by
  have few : coverage.tree.size ≤ linked.store.size := Nat.le_of_eq shows.nodeCount.symm
  have met := shows.unfolds.map_preorder shows.root few
  have asked : linked.find? description = linked.store.preorder.find?
      ((fun label : Option Segment => label.any fun segment =>
        segment.isTag && segment.description == description) ∘ linked.store.label?) := by
    refine congrArg (List.find? · _) (funext fun slot => ?_)
    rw [Function.comp_apply, NodeStore.label?, Option.any_map]
  calc (linked.find? description).map linked.store.label?
    _ = (coverage.tree.labels.map some).find? fun label => label.any fun segment =>
          segment.isTag && segment.description == description := by
      rw [asked, ← met, List.find?_map]
    _ = ((coverage.find? description).map Grove.Place.label).map some := by
      rw [Coverage.map_label_find?, List.find?_map]
      rfl

/-- Some slot is found if and only if some entry has the description, and it has the segment of the
first such entry. -/
theorem Shows.find?_ofNesting {linked : LinkedCoverage} {span : Span} {fillGaps : Bool}
    {nesting : Grove Entry} (shows : Shows linked (ofNesting span fillGaps nesting))
    (sorted : nesting.labels.Pairwise Entry.Before) (description : String) :
    ((∃ slot, linked.find? description = some slot) ↔
      ∃ entry ∈ nesting.labels, entry.tag.description = description) ∧
    ∀ slot, linked.find? description = some slot →
      ∃ entry ∈ nesting.labels, linked.store.label? slot = some (.ofEntry entry) ∧
        entry.tag.description = description ∧
        ∀ other ∈ nesting.labels, other.tag.description = description →
          other = entry ∨ entry.Before other := by
  have labels : (linked.find? description).map linked.store.label? =
      (nesting.labels.find? fun entry => entry.tag.description == description).map
        (some ∘ .ofEntry) := by
    rw [shows.map_label?_find?, Coverage.map_label_find?_ofNesting, Option.map_map]
  constructor
  · rw [← Option.isSome_iff_exists, ← Option.isSome_map, labels, Option.isSome_map,
      List.find?_isSome]
    simp only [beq_iff_eq]
  · intro slot found
    rw [found] at labels
    obtain ⟨entry, first, label⟩ := Option.map_eq_some_iff.mp labels.symm
    have named := List.find?_some first
    refine ⟨entry, List.mem_of_find?_eq_some first, label.symm, beq_iff_eq.mp named, ?_⟩
    intro other present same
    exact eq_or_precedes_of_find? sorted first other present (beq_iff_eq.mpr same)

/-- In a coverage that is put together in a node store, a walk from the root meets the tags that
hold an offset, which are those that are admitted, in the order of nesting: by beginning, the later
end first, then by emission. They are flattened in this order. For a description, whatever it is, a
node is found if and only if one of these tags has it, and it is the node of the first such tag. -/
theorem build_preorder {tags : List Tag} {span : Span} {options : Coverage.Options}
    {linked : LinkedCoverage} (built : (build tags span options).2 = .ok linked) :
    ∃ ordered : List Entry,
      (Coverage.admission span options.degenerate (Entry.numbered 0 tags)).2 =
        .ok (Entry.proper tags) ∧
      ordered.Perm (Entry.proper tags) ∧ ordered.Pairwise Entry.Before ∧
      linked.visited.filter Segment.isTag = ordered.map .ofEntry ∧
      (∃ coverage, (Coverage.build tags span options).2 = .ok coverage ∧
        coverage.flatten.map Prod.fst = ordered.map Entry.tag) ∧
      ∀ description,
        ((∃ slot, linked.find? description = some slot) ↔
          ∃ entry ∈ Entry.proper tags, entry.tag.description = description) ∧
        ∀ slot, linked.find? description = some slot →
          ∃ entry ∈ Entry.proper tags, linked.store.label? slot = some (.ofEntry entry) ∧
            entry.tag.description = description ∧
            ∀ other ∈ Entry.proper tags, other.tag.description = description →
              other = entry ∨ entry.Before other := by
  obtain ⟨error, failed, -⟩ | ⟨same, coverage, again, shown, shows⟩ :=
    (build_shows tags span options).2
  · rw [built] at failed
    contradiction
  obtain rfl : linked = same := Except.ok.inj (built.symm.trans again)
  obtain ⟨⟨admitted, admits⟩, -⟩ := Coverage.build_eq_ok_iff.mp shown
  obtain ⟨rfl, -⟩ := Coverage.of_admission admits
  obtain ⟨nesting, nests, rfl⟩ := Coverage.of_build shown
  have members : nesting.labels.Perm (Entry.proper tags) := by
    rw [nests.labels]
    exact List.mergeSort_perm _ _
  refine ⟨nesting.labels, admits, members, nests.sorted, ?_, ⟨_, shown, ?_⟩, fun description => ?_⟩
  · rw [shows.visited_eq, Coverage.filter_isTag_labels_tree]
  · exact Coverage.map_fst_flatten span options.fillGaps nesting
  · simp only [← members.mem_iff]
    exact shows.find?_ofNesting nests.sorted description

/-- Tags with one description, inside and beside each other, and one of them that holds nothing. -/
def alikeNamed : List Tag :=
  [.raw 4 6 "data", .raw 12 14 "data", .raw 1 0 "data", .raw 2 10 "outer", .raw 2 10 "data"]

/-- The walk over the coverage of `alikeNamed` meets its tags in the order of nesting, and the first
of one description is the outermost. -/
theorem build_preorder_alikeNamed :
    ∃ linked, (build alikeNamed ⟨0, 16⟩ ⟨true, .skip⟩).2 = .ok linked ∧
      linked.visited.filter Segment.isTag =
        [.ofEntry ⟨3, .raw 2 10 "outer"⟩, .ofEntry ⟨4, .raw 2 10 "data"⟩,
          .ofEntry ⟨0, .raw 4 6 "data"⟩, .ofEntry ⟨1, .raw 12 14 "data"⟩] ∧
      (∃ slot, linked.find? "data" = some slot ∧
        linked.store.label? slot = some (.ofEntry ⟨4, .raw 2 10 "data"⟩)) ∧
      linked.find? "" = none := by
  obtain ⟨coverage, shown⟩ : ∃ coverage,
      (Coverage.build alikeNamed ⟨0, 16⟩ ⟨true, .skip⟩).2 = .ok coverage :=
    Coverage.exists_build_iff.mpr ⟨by unfold Coverage.Passes; decide, by decide⟩
  obtain ⟨linked, built⟩ : ∃ linked, (build alikeNamed ⟨0, 16⟩ ⟨true, .skip⟩).2 = .ok linked := by
    obtain ⟨error, -, failed⟩ | ⟨linked, -, built, -⟩ :=
      (build_shows alikeNamed ⟨0, 16⟩ ⟨true, .skip⟩).2
    · rw [shown] at failed
      contradiction
    · exact ⟨linked, built⟩
  obtain ⟨ordered, -, members, sorted, visited, -, found⟩ := build_preorder built
  have order : ordered = [⟨3, .raw 2 10 "outer"⟩, ⟨4, .raw 2 10 "data"⟩, ⟨0, .raw 4 6 "data"⟩,
      ⟨1, .raw 12 14 "data"⟩] := by
    refine List.Perm.eq_of_pairwise (fun a b _ _ first second => absurd second first.asymm)
      sorted (by decide) (members.trans (by decide))
  have only : ∀ entry ∈ Entry.proper alikeNamed, entry.tag.description = "data" →
      (⟨4, .raw 2 10 "data"⟩ = entry ∨ entry.Before ⟨4, .raw 2 10 "data"⟩) →
        entry = ⟨4, .raw 2 10 "data"⟩ := by decide
  have named : ∀ entry ∈ Entry.proper alikeNamed, entry.tag.description ≠ "" := by decide
  refine ⟨linked, built, by rw [visited, order]; rfl, ?_, ?_⟩
  · obtain ⟨slot, here⟩ := (found "data").1.mpr ⟨⟨4, .raw 2 10 "data"⟩, by decide, rfl⟩
    obtain ⟨entry, present, label, description, least⟩ := (found "data").2 slot here
    obtain rfl := only entry present description (least _ (by decide) rfl)
    exact ⟨slot, here, label⟩
  · rw [Option.eq_none_iff_forall_ne_some]
    intro slot here
    obtain ⟨entry, present, bare⟩ := (found "").1.mp ⟨slot, here⟩
    exact named entry present bare

end LinkedCoverage

end Laminar
