import Laminar.Proofs.Coverage.Filling
import Laminar.Proofs.Nesting.Degenerate

/-!
# Parents of the tags of a coverage

The map of parents of a coverage lists the links of its nesting in the order of emission, whether
gaps are filled or not (`parentMap_ofNesting`). Tags that hold no offset are left out of a coverage,
and they could as well be left in for the parents to be found: they are nobody's parent and change
no other's, and their own is the innermost tag where they begin (`tightest_degenerate`).
-/

namespace Laminar

namespace Coverage

/-- The map of parents is read off the links of the tree. -/
theorem parentMap_eq_links (coverage : Coverage) :
    coverage.parentMap = (coverage.tree.links.filterMap fun link =>
      link.1.tagIndex?.map fun index => (index, link.2.bind Segment.tagIndex?)).mergeSort
        fun a b => a.1 ≤ b.1 := by
  rw [Grove.links, List.filterMap_map]
  rfl

/-- The map of parents lists the links of the nesting in the order of emission. -/
theorem parentMap_ofNesting {span : Span} {nesting : Grove Entry}
    (within : nesting.Within Entry.span span.start span.stop) (fillGaps : Bool) :
    (ofNesting span fillGaps nesting).parentMap =
      (nesting.links.mergeSort Nesting.byEmission).map fun link =>
        (link.1.index, link.2.map Entry.index) := by
  have bare : (ofNesting span fillGaps nesting).parentMap =
      (ofNesting span false nesting).parentMap := by
    cases fillGaps with
    | true => exact parentMap_bare within
    | false => rfl
  have tree : (ofNesting span false nesting).tree.links =
      (.file span, none) :: nesting.links.map fun link =>
        (.ofEntry link.1, some ((link.2.map .ofEntry).getD (.file span))) := by
    show (Grove.tree (.file span) (nesting.map Segment.ofEntry)).links = _
    rw [Grove.links_tree, Grove.links_map, List.map_map]
    rfl
  have order := List.map_mergeSort (l := nesting.links)
    (f := fun link => (link.1.index, link.2.map Entry.index)) (r := Nesting.byEmission)
    (s := fun a b => a.1 ≤ b.1) fun _ _ _ _ => rfl
  have listed : ((ofNesting span false nesting).tree.links.filterMap fun link =>
      link.1.tagIndex?.map fun index => (index, link.2.bind Segment.tagIndex?)) =
        nesting.links.map fun link => (link.1.index, link.2.map Entry.index) := by
    rw [tree, List.filterMap_cons_none rfl, List.filterMap_map, ← List.filterMap_eq_map]
    refine List.filterMap_congr fun link _ => ?_
    obtain ⟨inner, above⟩ := link
    cases above <;> rfl
  rw [bare, parentMap_eq_links, listed, order]

/-- If a coverage can be built without the tags that hold no offset, then all tags have parents, and
its map of parents restricts these to the tags that hold one. -/
theorem parentMap_of_build_skip {tags : List Tag} {span : Span} {fillGaps : Bool}
    {coverage : Coverage} (built : (build tags span ⟨fillGaps, .skip⟩).2 = .ok coverage) :
    ∃ result, Nesting.resolve tags = .ok result ∧
      coverage.parentMap.map (fun link => (link.1, some link.2)) =
        (Entry.proper tags).map fun entry => (entry.index, result[entry.index]?) := by
  obtain ⟨⟨admitted, admits⟩, proper, alone, rfl⟩ := build_eq_ok_iff.mp built
  obtain ⟨rfl, -⟩ := of_admission admits
  have within := (nests_of_admission admits alone).within
  have whole : Nesting.ofEntries (Entry.proper tags) =
      (Nesting.ofEntries (Entry.numbered 0 tags)).map (Grove.prune Entry.isProper) :=
    Nesting.ofEntries_filter (Entry.pairwise_index_ne_numbered tags)
  obtain ⟨nesting, nested, rfl⟩ := map_eq_ok_iff.mp (whole.symm.trans alone)
  refine ⟨Nesting.parents nesting, map_eq_ok_iff.mpr ⟨nesting, nested, rfl⟩, ?_⟩
  rw [parentMap_ofNesting within, ← Nesting.map_fst_links_prune nested, List.map_map, List.map_map]
  refine List.map_congr_left fun link present => ?_
  have parent := Nesting.getElem?_parents_of_prune nested (List.mem_mergeSort.mp present)
  exact congrArg (Prod.mk link.1.index) parent.symm

end Coverage

namespace Nesting

/-- Tags that hold no offset do not matter to the parents that the sweep finds for the others. The
tag at a position among the others is emitted at its place among all tags, and the positions come in
the order of the places; with the places for the positions, the others have the parents that they
have by themselves, or the same two of them cross. No parent is a tag that holds no offset, and the
parent of such a tag is the innermost tag that holds its beginning, if there is one. So a coverage
without such tags shows the parents of all tags, restricted to the others. -/
theorem tightest_degenerate (tags : List Tag) :
    let kept := tags.filter fun tag => ¬ tag.span.Degenerate
    let place := Entry.properIndex tags
    (∀ (position : Nat) (tag : Tag), kept[position]? = some tag →
        tags[place position]? = some tag) ∧
      (∀ a b, a < b → b < kept.length → place a < place b) ∧
      (Sweep.tightest (Entry.numbered 0 tags)).map
          (fun result => (Entry.proper tags).map fun entry => result[entry.index]?) =
        (Sweep.tightest (Entry.numbered 0 kept)).map
          (List.map fun parent => some (parent.map place)) ∧
      (∀ result, Sweep.tightest (Entry.numbered 0 tags) = .ok result →
        result.length = tags.length ∧
          (∀ parent, some parent ∈ result →
            ∃ tag : Tag, tags[parent]? = some tag ∧ ¬ tag.span.Degenerate) ∧
          ∀ (index : Nat) (tag : Tag), tags[index]? = some tag → tag.span.Degenerate →
            (result[index]? = some none ↔ ∀ outer ∈ tags, ¬ outer.span.Holds tag.span.start) ∧
              ∀ parent, result[index]? = some (some parent) ↔
                Innermost tags tag.span.start parent) ∧
      ∀ span fillGaps coverage,
        (Coverage.build tags span ⟨fillGaps, .skip⟩).2 = .ok coverage →
          ∃ result, Sweep.tightest (Entry.numbered 0 tags) = .ok result ∧
            coverage.parentMap.map (fun link => (link.1, some link.2)) =
              (Entry.proper tags).map fun entry => (entry.index, result[entry.index]?) := by
  simp only [Sweep.tightest_numbered]
  refine ⟨fun position tag => Entry.getElem?_properIndex, fun a b => Entry.properIndex_lt,
    resolve_filter tags, ?_, fun span fillGaps coverage => Coverage.parentMap_of_build_skip⟩
  intro result resolved
  obtain ⟨nesting, nested, rfl⟩ := map_eq_ok_iff.mp resolved
  refine ⟨length_parents (labels_perm_of_ofEntries nested),
    fun parent => not_degenerate_of_mem_parents nested, ?_⟩
  exact fun index tag => parent_of_degenerate nested

/-- Tags that hold no offset, before, between and after others that touch them. -/
def emptyBetween : List Tag :=
  [.raw 12 12 "beside", .raw 4 6 "inner", .raw 9 2 "inverted", .raw 2 10 "outer",
    .raw 2 10 "copy", .raw 4 4 "first", .raw 6 6 "last"]

/-- The sweep puts the empty tags of `emptyBetween` below the innermost tag that holds their
beginning, if there is one, and gives the others the parents that they have in the coverage. -/
theorem tightest_degenerate_emptyBetween :
    Sweep.tightest (Entry.numbered 0 emptyBetween) =
        .ok [none, some 4, some 4, none, some 3, some 1, some 4] ∧
      Innermost emptyBetween 9 4 ∧ Innermost emptyBetween 4 1 ∧ Innermost emptyBetween 6 4 ∧
      (∀ outer ∈ emptyBetween, ¬ outer.span.Holds 12) ∧
      ∃ coverage, (Coverage.build emptyBetween ⟨0, 16⟩ ⟨true, .skip⟩).2 = .ok coverage ∧
        coverage.parentMap.map (fun link => (link.1, some link.2)) =
          [(1, some (some 4)), (3, some none), (4, some (some 3))] := by
  have resolved : Sweep.tightest (Entry.numbered 0 emptyBetween) =
      .ok [none, some 4, some 4, none, some 3, some 1, some 4] := by cbv
  obtain ⟨-, -, -, parents, maps⟩ := tightest_degenerate emptyBetween
  obtain ⟨-, -, degenerate⟩ := parents _ resolved
  have inner := ((degenerate 2 (.raw 9 2 "inverted") rfl (by decide)).2 4).mp rfl
  have first := ((degenerate 5 (.raw 4 4 "first") rfl (by decide)).2 1).mp rfl
  have last := ((degenerate 6 (.raw 6 6 "last") rfl (by decide)).2 4).mp rfl
  have beside := (degenerate 0 (.raw 12 12 "beside") rfl (by decide)).1.mp rfl
  obtain ⟨coverage, built⟩ : ∃ coverage,
      (Coverage.build emptyBetween ⟨0, 16⟩ ⟨true, .skip⟩).2 = .ok coverage :=
    Coverage.exists_build_iff.mpr ⟨by unfold Coverage.Passes; decide, by decide⟩
  obtain ⟨result, again, shown⟩ := maps _ _ _ built
  obtain rfl := Except.ok.inj (again.symm.trans resolved)
  exact ⟨resolved, inner, first, last, beside, coverage, built, shown⟩

end Nesting

end Laminar
