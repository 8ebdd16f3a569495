import Laminar.Proofs.Coverage.Emission
import Laminar.Proofs.Grove.Numbering
import Laminar.Proofs.Nesting.Enclosers

/-!
# Renumbered entries

New places of emission that keep the order of the old ones change nothing about a nesting but these
places: entries are sorted alike (`mergeSort_renumbered`), nest alike or cross alike
(`ofEntries_renumbered`), and have the same parents at their new places (`parents_renumbered`). The
tags that hold an offset, numbered by themselves, are the entries of these tags among all tags with
such places (`map_renumbered_numbered`).
-/

namespace Laminar

namespace Entry

/-- New places that come in the order of the old ones. -/
def KeepsOrder (rename : Nat → Nat) (entries : List Entry) : Prop :=
  ∀ a ∈ entries, ∀ b ∈ entries, a.index < b.index → rename a.index < rename b.index

section KeepsOrder

variable {rename : Nat → Nat} {entries : List Entry} (keeps : KeepsOrder rename entries)
  {a b : Entry} (left : a ∈ entries) (right : b ∈ entries)

include keeps left right

/-- New places compare as the old ones do. -/
theorem KeepsOrder.lt_iff : rename a.index < rename b.index ↔ a.index < b.index := by
  refine ⟨fun first => ?_, keeps a left b right⟩
  rcases Nat.lt_trichotomy a.index b.index with less | same | more
  · exact less
  · rw [same] at first
    exact absurd first (Nat.lt_irrefl _)
  · exact absurd first (Nat.lt_asymm (keeps b right a left more))

/-- New places agree where the old ones do. -/
theorem KeepsOrder.eq_iff : rename a.index = rename b.index ↔ a.index = b.index := by
  have less := keeps.lt_iff left right
  have more := keeps.lt_iff right left
  omega

/-- The order of nesting is kept as well. -/
theorem KeepsOrder.comesFirst :
    (a.renumbered rename).comesFirst (b.renumbered rename) = a.comesFirst b := by
  have less : rename a.index < rename b.index ↔ a.index < b.index := keeps.lt_iff left right
  have same : rename a.index = rename b.index ↔ a.index = b.index := keeps.eq_iff left right
  rw [Bool.eq_iff_iff, comesFirst_iff, comesFirst_iff, Before, Before]
  simp only [span_renumbered]
  rw [← less, ← same]
  rfl

end KeepsOrder

/-- Entries at new places are sorted as they were. -/
theorem mergeSort_renumbered {rename : Nat → Nat} {entries : List Entry}
    (keeps : KeepsOrder rename entries) :
    (entries.map (renumbered rename)).mergeSort comesFirst =
      (entries.mergeSort comesFirst).map (renumbered rename) :=
  (List.map_mergeSort fun _ left _ right => (keeps.comesFirst left right).symm).symm

/-! ## The tags that hold an offset -/

/-- The place in the order of emission of the tag at a position among those that hold an offset. -/
def properIndex (tags : List Tag) (position : Nat) : Nat :=
  (((proper tags)[position]?).map index).getD 0

/-- The place of the entry at a position among those that hold an offset is its index. -/
theorem properIndex_of_getElem? {tags : List Tag} {position : Nat} {entry : Entry}
    (found : (proper tags)[position]? = some entry) : properIndex tags position = entry.index := by
  rw [properIndex, found]
  rfl

/-- Numbered by themselves, the tags that hold an offset are their entries at other places. -/
theorem map_renumbered_numbered (tags : List Tag) :
    (numbered 0 (tags.filter fun tag => ¬ tag.span.Degenerate)).map
      (renumbered (properIndex tags)) = proper tags := by
  apply List.ext_getElem?
  intro position
  rw [← map_tag_proper, List.getElem?_map, getElem?_numbered, List.getElem?_map]
  cases found : (proper tags)[position]? with
  | none => rfl
  | some entry =>
    show some (renumbered (properIndex tags) ⟨0 + position, entry.tag⟩) = some entry
    rw [renumbered, Nat.zero_add, properIndex_of_getElem? found]

/-- The tag at a position among those that hold an offset has its entry there. -/
theorem exists_proper_of_getElem? {tags : List Tag} {position : Nat} {tag : Tag}
    (found : (tags.filter fun tag => ¬ tag.span.Degenerate)[position]? = some tag) :
    ∃ entry, (proper tags)[position]? = some entry ∧ entry.tag = tag := by
  rw [← map_tag_proper, List.getElem?_map] at found
  exact Option.map_eq_some_iff.mp found

/-- The tag at a position among those that hold an offset was emitted at its place. -/
theorem getElem?_properIndex {tags : List Tag} {position : Nat} {tag : Tag}
    (found : (tags.filter fun tag => ¬ tag.span.Degenerate)[position]? = some tag) :
    tags[properIndex tags position]? = some tag := by
  obtain ⟨entry, listed, rfl⟩ := exists_proper_of_getElem? found
  rw [properIndex_of_getElem? listed]
  exact (mem_proper.mp (List.mem_of_getElem? listed)).1

/-- The places of the tags that hold an offset come in the order of their positions. -/
theorem properIndex_lt {tags : List Tag} {a b : Nat} (first : a < b)
    (inside : b < (tags.filter fun tag => ¬ tag.span.Degenerate).length) :
    properIndex tags a < properIndex tags b := by
  have ascending : (proper tags).Pairwise fun a b => a.index < b.index :=
    (pairwise_index_numbered 0 tags).filter _
  rw [← map_tag_proper, List.length_map] at inside
  have before := Nat.lt_trans first inside
  rw [properIndex_of_getElem? (List.getElem?_eq_getElem before),
    properIndex_of_getElem? (List.getElem?_eq_getElem inside)]
  exact List.pairwise_iff_getElem.mp ascending a b before inside first

/-- The places of the tags that hold an offset keep their order. -/
theorem keepsOrder_properIndex (tags : List Tag) :
    KeepsOrder (properIndex tags)
      (numbered 0 (tags.filter fun tag => ¬ tag.span.Degenerate)) := by
  intro a _ b right first
  exact properIndex_lt first (List.getElem?_eq_some_iff.mp (mem_numbered.mp right)).1

end Entry

namespace Nesting

/-- Where labels change and spans do not, the first crossing is that of the changed labels. -/
theorem firstCrossing?_map {f : Entry → Entry} (keeps : ∀ entry, (f entry).span = entry.span)
    (g : Grove Entry) : firstCrossing? (g.map f) = (firstCrossing? g).map (Prod.map f f) := by
  rw [firstCrossing?, firstCrossing?, Grove.links_map, List.findSome?_map, List.map_findSome?]
  refine congrArg (List.findSome? · g.links) (funext fun link => ?_)
  obtain ⟨inner, above⟩ := link
  cases above with
  | none => rfl
  | some outer =>
    by_cases encloses : outer.span.Encloses inner.span
    · simp [keeps, encloses]
    · simp [keeps, encloses]

/-- Entries at new places that keep their order nest as they did, or cross as they did. -/
theorem ofEntries_renumbered {rename : Nat → Nat} {entries : List Entry}
    (keeps : Entry.KeepsOrder rename entries) :
    ofEntries (entries.map (Entry.renumbered rename)) =
      (ofEntries entries).map (Grove.map (Entry.renumbered rename)) := by
  have spans := Entry.span_renumbered rename
  rw [ofEntries, ofEntries, Entry.mergeSort_renumbered keeps, group_map spans,
    firstCrossing?_map spans]
  cases firstCrossing? (group (entries.mergeSort Entry.comesFirst)) with
  | none => rfl
  | some crossing => rfl

/-- New places that keep the order of the old ones are the new places of the parents. -/
theorem parents_renumbered {rename : Nat → Nat} {g : Grove Entry}
    (keeps : Entry.KeepsOrder rename g.labels) :
    parents (g.map (Entry.renumbered rename)) = (parents g).map (Option.map rename) := by
  have lower : ∀ link ∈ g.links, link.1 ∈ g.labels := by
    intro link linked
    rw [← Grove.map_fst_links]
    exact List.mem_map_of_mem linked
  have sorted := List.map_mergeSort (l := g.links)
    (f := fun link => (link.1.renumbered rename, link.2.map (Entry.renumbered rename)))
    (r := byEmission) (s := byEmission) fun a left b right => by
      have order := keeps.lt_iff (lower b right) (lower a left)
      show decide (a.1.index ≤ b.1.index) = decide (rename a.1.index ≤ rename b.1.index)
      rw [decide_eq_decide, ← Nat.not_lt, ← Nat.not_lt, order]
  show ((g.map (Entry.renumbered rename)).links.mergeSort byEmission).map _ =
    ((g.links.mergeSort byEmission).map _).map _
  rw [Grove.links_map, ← sorted, List.map_map, List.map_map]
  refine List.map_congr_left fun link _ => ?_
  show (link.2.map (Entry.renumbered rename)).map Entry.index =
    (link.2.map Entry.index).map rename
  rw [Option.map_map, Option.map_map]
  rfl

end Nesting

end Laminar
