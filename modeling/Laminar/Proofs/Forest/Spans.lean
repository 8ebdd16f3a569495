import Laminar.Proofs.Forest.Ancestry
import Laminar.Proofs.Nesting.Enclosers

/-!
# Forests of spans

Strict enclosure is a strict order of spans, and spans that hold an offset are a laminar family
under it if no two of them cross. So a forest of the spans of tags mirrors strict enclosure, and it
has above each span what the nesting of the tags has there: an insertion one at a time and a pass
over sorted tags agree (`parent_item_eq_resolve`).
-/

namespace Laminar.Span

/-- Strict enclosure compares the ends and the distances between them. -/
theorem strictlyEncloses_iff (outer inner : Span) :
    outer.StrictlyEncloses inner ↔
      (outer.start.toNat ≤ inner.start.toNat ∧ inner.stop.toNat ≤ outer.stop.toNat) ∧
        outer.stop.toNat - outer.start.toNat ≠ inner.stop.toNat - inner.start.toNat := by
  simp only [StrictlyEncloses, Encloses, UInt64.le_iff_toNat_le, Ne, ← UInt64.toNat_inj,
    toNat_length]

/-- No span encloses itself strictly. -/
theorem StrictlyEncloses.irrefl (s : Span) : ¬ s.StrictlyEncloses s :=
  fun encloses => encloses.2 rfl

/-- Strict enclosure is transitive. -/
theorem StrictlyEncloses.trans {a b c : Span} (outer : a.StrictlyEncloses b)
    (inner : b.StrictlyEncloses c) : a.StrictlyEncloses c := by
  rw [strictlyEncloses_iff] at *
  omega

/-- A span that holds an offset is enclosed strictly by every other span that encloses it. -/
theorem Encloses.strictly {outer inner : Span} (encloses : outer.Encloses inner)
    (proper : inner.start < inner.stop) (different : outer ≠ inner) :
    outer.StrictlyEncloses inner := by
  simp only [Encloses, UInt64.le_iff_toNat_le, UInt64.lt_iff_toNat_lt, Ne, eq_iff,
    ← UInt64.toNat_inj] at encloses proper different
  rw [strictlyEncloses_iff]
  omega

/-- Spans that enclose one span that holds an offset overlap. -/
theorem Encloses.overlaps {a b inner : Span} (first : a.Encloses inner) (second : b.Encloses inner)
    (proper : inner.start < inner.stop) : a.Overlaps b :=
  ⟨UInt64.lt_of_le_of_lt first.1 (UInt64.lt_of_lt_of_le proper second.2),
    UInt64.lt_of_le_of_lt second.1 (UInt64.lt_of_lt_of_le proper first.2)⟩

end Laminar.Span

namespace Laminar.Forest

/-- The relation of strict enclosure. -/
def strictly (outer inner : Span) : Bool :=
  decide (outer.StrictlyEncloses inner)

/-- No span contains itself by strict enclosure. -/
theorem strictly_self (s : Span) : strictly s s = false :=
  decide_eq_false (Span.StrictlyEncloses.irrefl s)

/-- Containing by strict enclosure is transitive. -/
theorem strictly_trans (a b c : Span) (outer : strictly a b = true) (inner : strictly b c = true) :
    strictly a c = true :=
  decide_eq_true ((of_decide_eq_true outer).trans (of_decide_eq_true inner))

/-- Different spans that hold an offset and do not cross are a laminar family. -/
theorem isLaminar_spans {spans : List Span} (distinct : spans.Nodup)
    (proper : ∀ s ∈ spans, s.start < s.stop)
    (apart : ∀ a ∈ spans, ∀ b ∈ spans, ¬ a.Crosses b) : IsLaminar strictly spans := by
  refine List.Pairwise.imp_of_mem ?_ distinct
  intro a b left right different c present first second
  simp only [strictly, decide_eq_true_eq] at *
  have overlap := first.1.overlaps second.1 (proper c present)
  by_cases encloses : a.Encloses b
  · exact .inl (encloses.strictly (proper b right) different)
  · by_cases enclosed : b.Encloses a
    · exact .inr (enclosed.strictly (proper a left) different.symm)
    · exact absurd ⟨overlap, encloses, enclosed⟩ (apart a left b right)

/-- In a forest of different items, the place of an item is found by the item. -/
theorem find?_item {α : Type} [DecidableEq α] {forest : Forest α}
    (distinct : (forest.toList.map Planted.item).Nodup) {place : Grove.Place (Planted α)}
    (placed : place ∈ forest.trees.places) : forest.find? place.label.item = some place := by
  have items : forest.trees.places.map (fun place => place.label.item) =
      forest.toList.map Planted.item := by
    rw [toList, ← Grove.map_label_places, List.map_map]
    rfl
  rw [← items] at distinct
  have exists_place : (forest.find? place.label.item).isSome = true :=
    List.find?_isSome.mpr ⟨place, placed, by simp⟩
  obtain ⟨other, found⟩ := Option.isSome_iff_exists.mp exists_place
  have equal : other.label.item = place.label.item := by simpa using List.find?_some found
  have same := List.inj_on_of_nodup_map distinct (List.mem_of_find?_eq_some found) placed equal
  rw [found, same]

end Laminar.Forest

namespace Laminar.Nesting

open Forest (Mirrors Planted planting strictly)

section Distinct

variable {tags : List Tag} {start stop : UInt64} {nesting : Grove Entry}
  {place : Grove.Place Entry} (distinct : (tags.map Tag.span).Nodup)
  (nests : Nests (Entry.numbered 0 tags) start stop nesting) (placed : place ∈ nesting.places)

include distinct nests

/-- Entries of tags with different spans are told apart by their spans. -/
theorem eq_of_span_eq {a b : Entry} (left : a ∈ nesting.labels) (right : b ∈ nesting.labels)
    (same : a.span = b.span) : a = b := by
  rw [nests.labels, List.mem_mergeSort] at left right
  rw [← Entry.map_span_numbered 0] at distinct
  exact List.inj_on_of_nodup_map distinct left right same

/-- An entry that comes before another and encloses it does so strictly. -/
theorem strictly_of_before {a b : Entry} (left : a ∈ nesting.labels) (right : b ∈ nesting.labels)
    (first : a.Before b) (encloses : a.span.Encloses b.span) : strictly a.span b.span = true := by
  refine decide_eq_true (encloses.strictly (nests.within.inside b right).2.1 fun same => ?_)
  have itself := eq_of_span_eq distinct nests left right same
  exact Entry.Before.irrefl b (itself ▸ first)

include placed

/-- Above an entry are those that enclose it strictly. -/
theorem mem_map_span_above (outer : Span) :
    outer ∈ place.above.map Entry.span ↔
      outer ∈ tags.map Tag.span ∧ strictly outer place.label.span = true := by
  have here := Grove.label_mem_of_mem_placesBelow placed
  have emitted : outer ∈ tags.map Tag.span ↔ ∃ entry ∈ nesting.labels, entry.span = outer := by
    rw [nests.labels, ← Entry.map_span_numbered 0, List.mem_map]
    simp only [List.mem_mergeSort]
  rw [emitted, List.mem_map]
  constructor
  · rintro ⟨entry, higher, rfl⟩
    obtain ⟨present, before, encloses⟩ := (mem_above_iff nests placed entry).mp higher
    exact ⟨⟨entry, present, rfl⟩, strictly_of_before distinct nests present here before encloses⟩
  · rintro ⟨⟨entry, present, rfl⟩, covers⟩
    have covers := of_decide_eq_true covers
    have different : entry.span ≠ place.label.span :=
      fun same => Span.StrictlyEncloses.irrefl _ (same ▸ covers)
    have before := Entry.before_of_encloses covers.1 (.inl different)
    exact ⟨entry, (mem_above_iff nests placed entry).mpr ⟨present, before, covers.1⟩, rfl⟩

/-- Each entry above another encloses strictly those that are nearer. -/
theorem chain_span_above :
    (place.above.map Entry.span).Pairwise fun near far => strictly far near = true := by
  have path := (List.pairwise_append.mp (pairwise_path nests placed)).1
  have above := (List.pairwise_cons.mp (List.pairwise_reverse.mp path)).2
  refine List.pairwise_map.mpr (List.Pairwise.imp_of_mem ?_ above)
  rintro near far lower higher ⟨before, encloses⟩
  have labels := Grove.mem_labels_of_mem_above placed
  exact strictly_of_before distinct nests (labels far higher) (labels near lower) before encloses

/-- In a forest of the same spans that mirrors strict enclosure, an entry's span has above it the
spans of the entries above that entry. -/
theorem map_item_above_eq_map_span {trees : Grove (Planted Span)} (mirrors : Mirrors strictly trees)
    (same : (trees.labels.map Planted.item).Perm (tags.map Tag.span))
    {planted : Grove.Place (Planted Span)} (there : planted ∈ trees.places)
    (equal : planted.label.item = place.label.span) :
    planted.above.map Planted.item = place.above.map Entry.span := by
  refine Forest.eq_of_chain Forest.strictly_self Forest.strictly_trans
    (mirrors.chain_item_above there) (chain_span_above distinct nests placed) fun outer => ?_
  rw [mirrors.mem_map_item_above there, mem_map_span_above distinct nests placed, same.mem_iff,
    equal]

omit placed

/-- In such a forest and in the nesting, a tag has its own places, and just above them is the same
span. -/
theorem exists_alike_places {forest : Forest Span} (mirrors : Mirrors strictly forest.trees)
    (planted : forest.toList.Perm (planting 0 (tags.map Tag.span))) {index : Nat} {tag : Tag}
    (here : tags[index]? = some tag) :
    ∃ place ∈ forest.trees.places, ∃ entry ∈ nesting.places,
      place.label = ⟨index + 1, tag.span⟩ ∧ entry.label = ⟨index, tag⟩ ∧
        place.parent?.map Planted.item = entry.parent?.map Entry.span := by
  have items : (forest.toList.map Planted.item).Perm (tags.map Tag.span) := by
    simpa using planted.map Planted.item
  have emitted : nesting.labels.Perm (Entry.numbered 0 tags) :=
    nests.labels ▸ List.mergeSort_perm _ _
  have span : (tags.map Tag.span)[index]? = some tag.span := by rw [List.getElem?_map, here]; rfl
  have listed : (⟨index, tag⟩ : Entry) ∈ Entry.numbered 0 tags := Entry.mem_numbered.mpr here
  obtain ⟨place, placed, label⟩ := Grove.exists_place_of_mem_labels []
    (planted.mem_iff.mpr (Forest.mem_planting span))
  obtain ⟨entry, nested, numbered⟩ := Grove.exists_place_of_mem_labels []
    (emitted.mem_iff.mpr listed)
  have above := map_item_above_eq_map_span distinct nests nested mirrors items placed
    (by rw [label, numbered]; rfl)
  refine ⟨place, placed, entry, nested, label, numbered, ?_⟩
  rw [Grove.Place.parent?, Grove.Place.parent?, ← List.head?_map, ← List.head?_map, above]

end Distinct

/-- The index of the entry just above another leads to the span of that entry. -/
theorem span_of_parent_index {tags : List Tag} {start stop : UInt64} {nesting : Grove Entry}
    (nests : Nests (Entry.numbered 0 tags) start stop nesting) {place : Grove.Place Entry}
    (placed : place ∈ nesting.places) :
    ((place.parent?.map Entry.index).bind fun outer => tags[outer]?.map Tag.span) =
      place.parent?.map Entry.span := by
  cases upper : place.parent? with
  | none => rfl
  | some outer =>
    have higher := Grove.mem_labels_of_mem_above placed outer (List.mem_of_head? upper)
    rw [nests.labels, List.mem_mergeSort] at higher
    simp only [Option.map_some, Option.bind_some, Entry.mem_numbered.mp higher]
    rfl

/-- A forest of the spans of tags and the nesting of the tags agree, in whatever order the tags
come, if the spans are different, hold an offset and do not cross: both succeed, and the item just
above the span of a tag is the span of the tag's parent. -/
theorem parent_item_eq_resolve {σ : Type} {tags : List Tag} (distinct : (tags.map Tag.span).Nodup)
    (proper : ∀ tag ∈ tags, tag.span.start < tag.span.stop)
    (apart : ∀ a ∈ tags, ∀ b ∈ tags, ¬ a.span.Crosses b.span) (state : σ) :
    ∃ forest parents,
      ((Forest.build (Relation.ofBool strictly) (tags.map Tag.span)).run state).1 =
          .ok forest ∧
        resolve tags = .ok parents ∧
        forest.toList.Perm (planting 0 (tags.map Tag.span)) ∧
        ∀ index tag, tags[index]? = some tag →
          ∃ place parent, forest.find? tag.span = some place ∧
            place.label = ⟨index + 1, tag.span⟩ ∧ parents[index]? = some parent ∧
            (place.parent? = none ↔ parent = none) ∧
            place.parent?.map Planted.item =
              parent.bind fun outer => tags[outer]?.map Tag.span := by
  obtain ⟨parents, resolved⟩ := (exists_resolve_iff proper).mpr apart
  obtain ⟨nesting, nests, rfl⟩ := nests_of_resolve proper resolved
  have laminar : Forest.IsLaminar strictly (tags.map Tag.span) :=
    Forest.isLaminar_spans distinct (by simpa using proper) (by simpa using apart)
  obtain ⟨forest, built, planted, mirrors⟩ :=
    Forest.yields_build_mirrors Forest.strictly_self Forest.strictly_trans laminar state
  have items : (forest.toList.map Planted.item).Perm (tags.map Tag.span) := by
    simpa using planted.map Planted.item
  have emitted : nesting.labels.Perm (Entry.numbered 0 tags) :=
    nests.labels ▸ List.mergeSort_perm _ _
  refine ⟨forest, _, built, resolved, planted, ?_⟩
  intro index tag here
  obtain ⟨place, placed, entry, nested, label, numbered, alike⟩ :=
    exists_alike_places distinct nests mirrors planted here
  have linked : (entry.label, entry.parent?) ∈ nesting.links := List.mem_map_of_mem nested
  have parent := getElem?_parents emitted linked
  rw [numbered] at parent
  refine ⟨place, entry.parent?.map Entry.index, ?_, label, parent, ?_, ?_⟩
  · have found := Forest.find?_item (items.nodup_iff.mpr distinct) placed
    rwa [label] at found
  · rw [← Option.map_eq_none_iff (f := Planted.item), alike, Option.map_eq_none_iff,
      Option.map_eq_none_iff]
  · rw [alike, span_of_parent_index nests nested]

/-- A span that was emitted before those around it, one of which begins where it does. -/
def innerFirst : List Tag :=
  [.raw 4 6 "inner", .raw 0 16 "file", .raw 4 10 "middle", .raw 12 14 "apart"]

/-- The parent of the inner one of `innerFirst` is the middle one, in the nesting and in the forest.
-/
theorem parent_item_eq_resolve_innerFirst :
    resolve innerFirst = .ok [some 2, none, some 1, some 1] ∧
      ∃ forest, ((Forest.build (Relation.ofBool strictly) (innerFirst.map Tag.span)).run ()).1 =
          .ok forest ∧
        ∃ place, forest.find? ⟨4, 6⟩ = some place ∧
          place.parent?.map Planted.item = some ⟨4, 10⟩ := by
  have resolved : resolve innerFirst = .ok [some 2, none, some 1, some 1] := by cbv
  have distinct : (innerFirst.map Tag.span).Nodup := by decide
  obtain ⟨forest, parents, built, same, -, agree⟩ :=
    parent_item_eq_resolve distinct (by decide) (by decide) ()
  obtain rfl : parents = _ := Except.ok.inj (same.symm.trans resolved)
  obtain ⟨place, parent, found, -, named, -, item⟩ := agree 0 (.raw 4 6 "inner") rfl
  obtain rfl : some 2 = parent := Option.some.inj named
  exact ⟨resolved, forest, built, place, found, item⟩

end Laminar.Nesting
