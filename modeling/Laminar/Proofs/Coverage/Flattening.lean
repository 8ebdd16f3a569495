import Laminar.Proofs.Coverage.Emission
import Laminar.Proofs.Coverage.Filling
import Laminar.Proofs.Grove.Numbering

/-!
# Flattened coverages

Flattening lists the tags of a coverage in the order of nesting and numbers them in this order. Tags
that come in the order of nesting are nested as they came (`ofEntries_labels`), so the flattened
tags have the nesting of the coverage with the new numbers for the places of emission
(`ofEntries_numbered`), and what is built from them is the same coverage but for these places
(`build_flatten`).
-/

namespace Laminar

/-- Of entries that come in the order of nesting but for copies, an earlier one comes before. -/
theorem Span.NestsFirst.before {a b : Entry} (first : a.span.NestsFirst b.span)
    (earlier : a.index < b.index) : a.Before b := by
  rw [Entry.before_iff]
  simp only [NestsFirst, UInt64.lt_iff_toNat_lt, UInt64.le_iff_toNat_le, ← UInt64.toNat_inj]
    at first
  omega

namespace Nesting

/-- Entries in the order of nesting whose spans nest are nested as they are. -/
theorem ofEntries_labels {g : Grove Entry} {start stop : UInt64}
    (within : g.Within Entry.span start stop) (sorted : g.labels.Pairwise Entry.Before) :
    ofEntries g.labels = .ok g := by
  have ordered : g.labels.Pairwise fun a b => a.comesFirst b = true :=
    sorted.imp fun first => (Entry.comesFirst_iff _ _).mpr (.inl first)
  have apart : firstCrossing? g = none :=
    (firstCrossing?_eq_none_iff g).mpr within.families_encloses
  rw [ofEntries, List.mergeSort_of_pairwise ordered, group_labels within, apart]

/-- Where the entries come in the order of emission, so do their links. -/
theorem parents_eq_map_links {g : Grove Entry}
    (sorted : g.labels.Pairwise fun a b => a.index < b.index) :
    parents g = g.links.map fun link => link.2.map Entry.index := by
  have ordered : g.links.Pairwise fun a b => decide (a.1.index ≤ b.1.index) = true := by
    rw [← Grove.map_fst_links, List.pairwise_map] at sorted
    exact sorted.imp fun first => decide_eq_true (Nat.le_of_lt first)
  rw [parents, List.mergeSort_of_pairwise ordered]

/-- The position in the order of nesting of the entry emitted at an index. -/
def position (g : Grove Entry) (index : Nat) : Nat :=
  (g.labels.map Entry.index).idxOf index

/-- The nesting with the positions for the places in the order of emission. -/
def repositioned (g : Grove Entry) : Grove Entry :=
  g.map (Entry.renumbered (position g))

/-- New places leave the nesting of the spans as it is. -/
theorem within_repositioned {g : Grove Entry} {start stop : UInt64}
    (within : g.Within Entry.span start stop) :
    (repositioned g).Within Entry.span start stop :=
  Grove.Within.map within

section Positions

variable {g : Grove Entry} (distinct : (g.labels.map Entry.index).Nodup)

include distinct

/-- The entry at a place in the order of nesting has this place as its position. -/
theorem position_of_getElem? {place : Nat} {entry : Entry} (found : g.labels[place]? = some entry) :
    position g entry.index = place := by
  obtain ⟨inside, rfl⟩ := List.getElem?_eq_some_iff.mp found
  have first := distinct.idxOf_getElem place (by simpa using inside)
  rwa [List.getElem_map] at first

/-- The positions count up. -/
theorem map_position_labels :
    g.labels.map (fun entry => position g entry.index) = List.range' 0 g.size := by
  apply List.ext_getElem
  · rw [List.length_map, List.length_range', Grove.length_labels]
  · intro place inside _
    rw [List.length_map] at inside
    rw [List.getElem_map, List.getElem_range',
      position_of_getElem? distinct (List.getElem?_eq_getElem inside)]
    omega

/-- With the positions for places, the entries are the numbered tags. -/
theorem labels_repositioned :
    (repositioned g).labels = Entry.numbered 0 (g.labels.map Entry.tag) := by
  apply List.ext_getElem?
  intro place
  rw [repositioned, Grove.labels_map, Entry.getElem?_numbered, List.getElem?_map, List.getElem?_map]
  cases found : g.labels[place]? with
  | none => rfl
  | some entry =>
    show some (entry.renumbered (position g)) = some ⟨0 + place, entry.tag⟩
    rw [Entry.renumbered, position_of_getElem? distinct found, Nat.zero_add]

/-- The tags of a nesting in its order nest as they do in it. -/
theorem ofEntries_numbered {start stop : UInt64} (within : g.Within Entry.span start stop)
    (sorted : g.labels.Pairwise Entry.Before) :
    ofEntries (Entry.numbered 0 (g.labels.map Entry.tag)) = .ok (repositioned g) := by
  rw [← labels_repositioned distinct]
  refine ofEntries_labels (within_repositioned within) ?_
  have spans : (repositioned g).labels.Pairwise fun a b => a.span.NestsFirst b.span := by
    rw [repositioned, Grove.labels_map, List.pairwise_map]
    exact sorted.imp Entry.Before.nestsFirst
  have indices : (repositioned g).labels.Pairwise fun a b => a.index < b.index := by
    rw [labels_repositioned distinct]
    exact Entry.pairwise_index_numbered 0 _
  exact (spans.and indices).imp fun both => both.1.before both.2

/-- The list of parents of the tags in the order of nesting has the positions of the parents. -/
theorem parents_repositioned :
    parents (repositioned g) =
      (g.number 0).links.map fun link => link.2.map Prod.fst := by
  have indices : (repositioned g).labels.Pairwise fun a b => a.index < b.index := by
    rw [labels_repositioned distinct]
    exact Entry.pairwise_index_numbered 0 _
  rw [parents_eq_map_links indices, repositioned, Grove.links_map,
    Grove.number_eq_map (map_position_labels distinct), Grove.links_map, List.map_map, List.map_map]
  refine List.map_congr_left fun link _ => ?_
  show (link.2.map (Entry.renumbered (position g))).map Entry.index =
    (link.2.map fun entry => (position g entry.index, entry)).map Prod.fst
  rw [Option.map_map, Option.map_map]
  rfl

end Positions

end Nesting

namespace Coverage

/-- The emission indices of the tags, each before those of the tags in it. -/
def emissions (coverage : Coverage) : List Nat :=
  coverage.places.filterMap fun place => place.label.tagIndex?

/-- The position of the tag emitted at an index among the tags of the tree. -/
def position (coverage : Coverage) (index : Nat) : Nat :=
  coverage.emissions.idxOf index

/-- The tags of a coverage are those of its nesting. -/
theorem emissions_ofNesting (span : Span) (fillGaps : Bool) (nesting : Grove Entry) :
    (ofNesting span fillGaps nesting).emissions = nesting.labels.map Entry.index := by
  have labels : (ofNesting span fillGaps nesting).emissions =
      (ofNesting span fillGaps nesting).tree.labels.filterMap Segment.tagIndex? := by
    rw [← Grove.map_label_places, List.filterMap_map]
    rfl
  have tags : (ofNesting span fillGaps nesting).tree.labels.filterMap Segment.tagIndex? =
      ((ofNesting span fillGaps nesting).tree.labels.filter Segment.isTag).filterMap
        Segment.tagIndex? := by
    rw [List.filterMap_filter]
    refine List.filterMap_congr fun segment _ => ?_
    cases index : segment.tagIndex? with
    | none => simp
    | some index => simp [Segment.isTag, *]
  rw [labels, tags, filter_isTag_labels_tree, List.filterMap_map]
  exact congrFun List.filterMap_eq_map nesting.labels

/-- The tags of a coverage come as its nesting is numbered. -/
theorem flatten_ofNesting (span : Span) (fillGaps : Bool) (nesting : Grove Entry) :
    (ofNesting span fillGaps nesting).flatten =
      (nesting.number 0).links.map fun link => (link.1.2.tag, link.2.map Prod.fst) := by
  rw [flatten, prune_segments Segment.isTag_fragment Segment.isTag_ofEntry, Grove.number_map,
    Grove.links_map, List.map_map]
  refine List.map_congr_left fun link _ => ?_
  show ((Segment.ofEntry link.1.2).toTag, (link.2.map _).map Prod.fst) = _
  rw [Option.map_map]
  rfl

/-- The tags of a coverage come in the order of nesting. -/
theorem map_fst_flatten (span : Span) (fillGaps : Bool) (nesting : Grove Entry) :
    (ofNesting span fillGaps nesting).flatten.map Prod.fst = nesting.labels.map Entry.tag := by
  have labels : (nesting.number 0).links.map (fun link => link.1.2) = nesting.labels := by
    rw [← Grove.map_snd_labels_number 0, ← Grove.map_fst_links, List.map_map]
    rfl
  rw [flatten_ofNesting, ← labels, List.map_map, List.map_map]
  rfl

/-- New places of emission do not change the flattened tags. -/
theorem flatten_repositioned (span : Span) (fillGaps : Bool) (nesting : Grove Entry) :
    (ofNesting span fillGaps (Nesting.repositioned nesting)).flatten =
      (ofNesting span fillGaps nesting).flatten := by
  rw [flatten_ofNesting, flatten_ofNesting, Nesting.repositioned, Grove.number_map,
    Grove.links_map, List.map_map]
  refine List.map_congr_left fun link _ => ?_
  show ((link.1.2.renumbered _).tag, (link.2.map _).map Prod.fst) = _
  rw [Option.map_map]
  rfl

/-- The tag above another comes before it in the list of tags. -/
theorem lt_of_getElem?_flatten {span : Span} {fillGaps : Bool} {nesting : Grove Entry}
    {place above : Nat}
    (found : ((ofNesting span fillGaps nesting).flatten.map Prod.snd)[place]? = some (some above)) :
    above < place := by
  rw [flatten_ofNesting, List.map_map, List.getElem?_map, Option.map_eq_some_iff] at found
  obtain ⟨link, at_place, upper⟩ := found
  obtain ⟨outer, outer_mem, rfl⟩ := Option.map_eq_some_iff.mp upper
  have counted := congrArg (fun list => list[place]?) (Grove.map_number_links 0 nesting)
  rw [List.getElem?_map, at_place, Option.map_some, eq_comm, List.getElem?_eq_some_iff] at counted
  obtain ⟨inside, number⟩ := counted
  rw [List.getElem_range'] at number
  have first := Grove.number_lt_of_mem_links (List.mem_of_getElem? at_place) outer_mem
  omega

section Nests

variable {tags : List Tag} {span : Span} {nesting : Grove Entry}
  (nests : Nesting.Nests (Entry.proper tags) span.start span.stop nesting)

include nests

/-- The places of emission are distinct. -/
theorem nodup_indices : (nesting.labels.map Entry.index).Nodup := by
  rw [nests.labels, List.Nodup, List.pairwise_map]
  exact (Entry.pairwise_index_proper tags).perm (List.mergeSort_perm _ _).symm Ne.symm

/-- The tags of a nesting in its order are built to the coverage with the positions for places. -/
theorem build_labels (options : Options) :
    (build (nesting.labels.map Entry.tag) span options).2 =
      .ok (ofNesting span options.fillGaps (Nesting.repositioned nesting)) := by
  have inside : ∀ tag ∈ nesting.labels.map Entry.tag, ¬ tag.span.Degenerate ∧
      span.Encloses tag.span := by
    rw [List.forall_mem_map]
    intro entry present
    obtain ⟨first, proper, last⟩ := nests.within.inside entry present
    exact ⟨(Span.not_degenerate_iff _).mpr proper, first, last⟩
  have entries : Entry.proper (nesting.labels.map Entry.tag) =
      Entry.numbered 0 (nesting.labels.map Entry.tag) := by
    apply List.filter_eq_self.mpr
    simp only [decide_eq_true_eq]
    exact (Entry.forall_mem_numbered_iff (fun tag => ¬ tag.span.Degenerate) 0 _).mpr
      fun tag present => (inside tag present).1
  apply build_eq_ok_iff.mpr
  refine ⟨(exists_admission_iff _ _ _).mpr ?_, Nesting.repositioned nesting, ?_, rfl⟩
  · apply (Entry.forall_mem_numbered_iff
      (fun tag => Passes span options.degenerate tag.span) 0 _).mpr
    intro tag present
    rw [Passes, if_neg (inside tag present).1]
    exact (inside tag present).2
  · rw [entries]
    exact Nesting.ofEntries_numbered (nodup_indices nests) nests.within nests.sorted

end Nests

/-- The flattened tags are the tags that hold an offset, each after the one it lies in. They resolve
to the flattened parents, and a coverage built from them is the same but for the places of emission,
which are the positions in the list. -/
theorem build_flatten {tags : List Tag} {span : Span} {options : Options} {coverage : Coverage}
    (built : (build tags span options).2 = .ok coverage) :
    (∀ place above : Nat,
      (coverage.flatten.map Prod.snd)[place]? = some (some above) → above < place) ∧
    (coverage.flatten.map Prod.fst).Perm (tags.filter fun tag => ¬ tag.span.Degenerate) ∧
    Nesting.resolve (coverage.flatten.map Prod.fst) = .ok (coverage.flatten.map Prod.snd) ∧
    (coverage.emissions.Nodup ∧
      coverage.emissions.map (fun index => tags[index]?) =
        (coverage.flatten.map Prod.fst).map some) ∧
    ∃ other, (build (coverage.flatten.map Prod.fst) coverage.span options).2 = .ok other ∧
      other.tree = coverage.tree.map (Segment.renumbered coverage.position) ∧
      other.flatten = coverage.flatten := by
  obtain ⟨nesting, nests, rfl⟩ := of_build built
  have distinct := nodup_indices nests
  have entries : nesting.labels.Perm (Entry.proper tags) := by
    rw [nests.labels]
    exact List.mergeSort_perm _ _
  have positions :
      (ofNesting span options.fillGaps nesting).position = Nesting.position nesting := by
    funext index
    rw [position, emissions_ofNesting, Nesting.position]
  rw [map_fst_flatten, emissions_ofNesting, positions]
  refine ⟨fun place above => lt_of_getElem?_flatten, ?_, ?_, ⟨distinct, ?_⟩, ?_⟩
  · rw [← Entry.map_tag_proper]
    exact entries.map Entry.tag
  · rw [Nesting.resolve, Nesting.ofEntries_numbered distinct nests.within nests.sorted]
    show Except.ok (Nesting.parents (Nesting.repositioned nesting)) = .ok _
    rw [Nesting.parents_repositioned distinct, flatten_ofNesting, List.map_map]
    rfl
  · rw [List.map_map, List.map_map]
    refine List.map_congr_left fun entry present => ?_
    exact (Entry.mem_proper.mp (entries.mem_iff.mp present)).1
  · refine ⟨_, build_labels nests options, ?_, flatten_repositioned _ _ _⟩
    have labels : nesting.labels.map (Entry.renumbered (Nesting.position nesting)) =
        (Nesting.repositioned nesting).labels := by
      rw [Nesting.repositioned, Grove.labels_map]
    have within := Nesting.within_repositioned nests.within
    exact (renumbered_eq_of_labels within nests.within labels span options.fillGaps).symm

/-- The flattened tags of `nestedCopies`, the outer one first, are built to the coverage of
`nestedCopies` with new places of emission. -/
theorem build_flatten_nestedCopies :
    (build nestedCopies ⟨0, 16⟩ ⟨true, .skip⟩).2 = .ok nestedCopiesCoverage ∧
      nestedCopiesCoverage.flatten =
        [(.raw 2 10 "outer", none), (.raw 2 10 "copy", some 0), (.raw 4 6 "inner", some 1)] ∧
      Nesting.resolve [.raw 2 10 "outer", .raw 2 10 "copy", .raw 4 6 "inner"] =
        .ok [none, some 0, some 1] ∧
      ∃ other, (build [.raw 2 10 "outer", .raw 2 10 "copy", .raw 4 6 "inner"] ⟨0, 16⟩
          ⟨true, .skip⟩).2 = .ok other ∧ other.flatten = nestedCopiesCoverage.flatten := by
  have flat : nestedCopiesCoverage.flatten =
      [(.raw 2 10 "outer", none), (.raw 2 10 "copy", some 0), (.raw 4 6 "inner", some 1)] := by
    cbv
  have built := congrArg Prod.snd build_nestedCopies
  obtain ⟨-, -, resolved, -, other, rebuilt, -, same⟩ := build_flatten built
  rw [flat] at resolved rebuilt
  exact ⟨built, flat, resolved, other, rebuilt, same⟩

end Coverage

end Laminar
