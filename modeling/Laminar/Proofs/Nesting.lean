import Mathlib.Data.List.TakeWhile
import Laminar.Proofs.Grove.Within
import Laminar.Proofs.Nesting.Order

/-!
# The nesting of sorted entries

Grouping sorted entries loses none and keeps their order (`labels_group`). An entry lies below
another only if it comes after it and begins before its end (`families_group`), and beside another
only if it begins at its end or later. If every entry is then enclosed by the one just above it,
the spans nest (`within_group`). So the entries have a nesting if and only if no two of them cross
(`exists_ofEntries_iff`).
-/

namespace Laminar.Nesting

/-- Grouping keeps the entries in their order. -/
@[simp]
theorem labels_group (entries : List Entry) : (group entries).labels = entries := by
  fun_induction group entries with
  | case1 => rfl
  | case2 entry rest begins inner later =>
    rw [Grove.labels, inner, later, List.takeWhile_append_dropWhile]

/-- What lies below an entry comes after it and begins before its end. -/
theorem families_group {entries : List Entry} (sorted : entries.Pairwise Entry.Before) :
    (group entries).Families fun outer children =>
      ∀ inner ∈ children, outer.Before inner ∧ inner.span.start < outer.span.stop := by
  fun_induction group entries with
  | case1 => trivial
  | case2 entry rest begins inner later =>
    obtain ⟨first, sorted⟩ := List.pairwise_cons.mp sorted
    refine ⟨?_, inner (sorted.sublist (List.takeWhile_sublist _)),
      later (sorted.sublist (List.dropWhile_sublist _))⟩
    intro child root
    have below := (Grove.roots_sublist_labels _).subset root
    rw [labels_group] at below
    exact ⟨first child ((List.takeWhile_sublist _).subset below), by
      simpa [begins] using List.mem_takeWhile_imp below⟩

/-- What lies beside an entry begins at its end or later. -/
theorem stop_le_of_mem_dropWhile {entry : Entry} {rest : List Entry}
    (sorted : rest.Pairwise Entry.Before) :
    ∀ other ∈ rest.dropWhile fun o => o.span.start < entry.span.stop,
      entry.span.stop ≤ other.span.start := by
  induction rest with
  | nil => simp
  | cons next rest later =>
    obtain ⟨first, sorted⟩ := List.pairwise_cons.mp sorted
    by_cases begins : next.span.start < entry.span.stop
    · simpa [List.dropWhile_cons, begins] using later sorted
    · simp only [List.dropWhile_cons, begins, decide_false, Bool.false_eq_true, ↓reduceIte,
        List.forall_mem_cons]
      have ended := UInt64.not_lt.mp begins
      refine ⟨ended, ?_⟩
      intro other present
      exact UInt64.le_trans ended (first other present).start_le

/-- Sorted entries of which each is enclosed by the one just above it nest. -/
theorem within_group {entries : List Entry} (sorted : entries.Pairwise Entry.Before)
    (proper : ∀ entry ∈ entries, entry.span.start < entry.span.stop)
    (enclosed : (group entries).Families fun outer children =>
      ∀ inner ∈ children, outer.span.Encloses inner.span) :
    ∀ start stop, (∀ entry ∈ entries, start ≤ entry.span.start) →
      (∀ root ∈ (group entries).roots, root.span.stop ≤ stop) →
        (group entries).Within Entry.span start stop := by
  fun_induction group entries with
  | case1 => exact fun _ _ _ _ => trivial
  | case2 entry rest begins inner later =>
    intro start stop starts stops
    obtain ⟨first, sorted⟩ := List.pairwise_cons.mp sorted
    obtain ⟨children, below, beside⟩ := enclosed
    simp only [List.forall_mem_cons] at proper starts
    simp only [Grove.roots, List.forall_mem_cons] at stops
    have taken := List.takeWhile_sublist (l := rest) begins
    have dropped := List.dropWhile_sublist (l := rest) begins
    have inside := inner (sorted.sublist taken) (fun e present => proper.2 e (taken.subset present))
      below entry.span.start entry.span.stop
    have right := later (sorted.sublist dropped)
      (fun e present => proper.2 e (dropped.subset present)) beside entry.span.stop stop
    refine ⟨⟨starts.1, proper.1, stops.1⟩, inside ?_ ?_, right ?_ stops.2⟩
    · exact fun other present => (first other (taken.subset present)).start_le
    · exact fun root child => (children root child).2
    · exact stop_le_of_mem_dropWhile sorted

/-- Entries whose spans nest are grouped as they nest, so the list of them determines the grove. -/
theorem group_labels {g : Grove Entry} {start stop : UInt64}
    (within : g.Within Entry.span start stop) : group g.labels = g := by
  induction g generalizing start stop with
  | nil => rw [Grove.labels, group]
  | node entry below beside inner later =>
    obtain ⟨_, lower, right⟩ := within
    have begins : ∀ other ∈ below.labels, decide (other.span.start < entry.span.stop) = true := by
      intro other present
      obtain ⟨_, proper, ends⟩ := lower.inside other present
      exact decide_eq_true (UInt64.lt_of_lt_of_le proper ends)
    have ended : ∀ other ∈ beside.labels, ¬ decide (other.span.start < entry.span.stop) = true := by
      intro other present
      rw [decide_eq_true_eq]
      exact UInt64.not_lt.mpr (right.inside other present).1
    rw [Grove.labels, group, List.takeWhile_append_of_pos begins,
      List.dropWhile_append_of_pos begins,
      List.takeWhile_eq_nil_iff.mpr fun some => ended _ (List.get_mem _ _),
      List.dropWhile_eq_self_iff.mpr fun some => ended _ (List.getElem_mem some),
      List.append_nil, inner lower, later right]

/-- A function that keeps spans may be applied before entries are grouped or afterwards. -/
theorem group_map {f : Entry → Entry} (keeps : ∀ entry, (f entry).span = entry.span)
    (entries : List Entry) : group (entries.map f) = (group entries).map f := by
  fun_induction group entries with
  | case1 => rw [List.map_nil, group, Grove.map]
  | case2 entry rest begins inner later =>
    have same : (fun other : Entry => decide (other.span.start < (f entry).span.stop)) ∘ f =
        begins := by
      funext other
      simp only [Function.comp_apply, keeps, begins]
    rw [List.map_cons, group, Grove.map, List.takeWhile_map, List.dropWhile_map, same, inner, later]

/-- There is no crossing if and only if every entry encloses those just below it. -/
theorem firstCrossing?_eq_none_iff (g : Grove Entry) :
    firstCrossing? g = none ↔
      g.Families fun outer children => ∀ inner ∈ children, outer.span.Encloses inner.span := by
  have links := Grove.forall_links_iff (fun outer inner => outer.span.Encloses inner.span) g
  rw [← links, firstCrossing?, List.findSome?_eq_none_iff]
  refine forall₂_congr fun link linked => ?_
  obtain ⟨inner, above⟩ := link
  cases above with
  | none => simp
  | some outer => simp

/-- The first crossing is a link to an entry that the one above it does not enclose. -/
theorem link_of_firstCrossing? {g : Grove Entry} {outer inner : Entry}
    (found : firstCrossing? g = some (outer, inner)) :
    (inner, some outer) ∈ g.links ∧ ¬ outer.span.Encloses inner.span := by
  obtain ⟨⟨lower, above⟩, linked, crossing⟩ := List.exists_of_findSome?_eq_some found
  cases above with
  | none => simp at crossing
  | some upper =>
    by_cases encloses : upper.span.Encloses lower.span
    · simp [encloses] at crossing
    · simp only [encloses, ↓reduceIte, Option.some.injEq, Prod.mk.injEq] at crossing
      obtain ⟨rfl, rfl⟩ := crossing
      exact ⟨linked, encloses⟩

/-- The first crossing among sorted entries is one: both are among them, and they cross. -/
theorem crosses_of_firstCrossing? {entries : List Entry} (sorted : entries.Pairwise Entry.Before)
    (proper : ∀ entry ∈ entries, entry.span.start < entry.span.stop) {outer inner : Entry}
    (found : firstCrossing? (group entries) = some (outer, inner)) :
    outer ∈ entries ∧ inner ∈ entries ∧ outer.span.Crosses inner.span := by
  obtain ⟨linked, crossing⟩ := link_of_firstCrossing? found
  have upper : outer ∈ (group entries).labels := Grove.mem_labels_of_mem_links linked rfl
  have lower : inner ∈ (group entries).labels := by
    rw [← Grove.map_fst_links]
    exact List.mem_map_of_mem linked
  rw [labels_group] at upper lower
  obtain ⟨before, begins⟩ :=
    (Grove.forall_links_iff _ _).mpr (families_group sorted) _ linked outer rfl
  have starts := before.start_le
  refine ⟨upper, lower, ⟨?_, begins⟩, crossing, ?_⟩
  · exact UInt64.lt_of_le_of_lt starts (proper inner lower)
  · intro encloses
    exact crossing ⟨starts, before.stop_le encloses.1⟩

/-- A nesting of entries has each of them once in the order of nesting, and their spans nest. -/
structure Nests (entries : List Entry) (start stop : UInt64) (nesting : Grove Entry) : Prop where
  /-- The entries come in the order of nesting. -/
  labels : nesting.labels = entries.mergeSort Entry.comesFirst
  /-- Each entry comes before those after it. -/
  sorted : nesting.labels.Pairwise Entry.Before
  /-- Every entry lies in the one above it and apart from those beside it. -/
  within : nesting.Within Entry.span start stop

section OfEntries

variable {entries : List Entry}
  (distinct : entries.Pairwise fun a b => a.index ≠ b.index)
  (proper : ∀ entry ∈ entries, entry.span.start < entry.span.stop)

include distinct proper

/-- Entries that all lie between two ends have a nesting there, if they have one. -/
theorem nests_of_ofEntries {nesting : Grove Entry} (nested : ofEntries entries = .ok nesting)
    {start stop : UInt64} (starts : ∀ entry ∈ entries, start ≤ entry.span.start)
    (stops : ∀ entry ∈ entries, entry.span.stop ≤ stop) : Nests entries start stop nesting := by
  simp only [ofEntries] at nested
  split at nested
  · contradiction
  · next none_crossing =>
    obtain rfl := Except.ok.inj nested
    have sorted := Entry.pairwise_before_mergeSort distinct
    refine ⟨labels_group _, (labels_group _).symm ▸ sorted,
      within_group sorted ?_ ?_ start stop ?_ ?_⟩
    · exact fun entry present => proper entry (List.mem_mergeSort.mp present)
    · exact (firstCrossing?_eq_none_iff _).mp none_crossing
    · exact fun entry present => starts entry (List.mem_mergeSort.mp present)
    · intro root top
      have present := (Grove.roots_sublist_labels _).subset top
      rw [labels_group] at present
      exact stops root (List.mem_mergeSort.mp present)

/-- A failure to nest shows two entries that cross. -/
theorem crosses_of_ofEntries {error : HierarchyError} (failed : ofEntries entries = .error error) :
    ∃ outer ∈ entries, ∃ inner ∈ entries,
      error = .crossing outer.tag inner.tag ∧ outer.span.Crosses inner.span := by
  simp only [ofEntries] at failed
  split at failed
  · next outer inner found =>
    obtain rfl := Except.error.inj failed
    have sorted := Entry.pairwise_before_mergeSort distinct
    obtain ⟨upper, lower, crossing⟩ := crosses_of_firstCrossing? sorted
      (fun entry present => proper entry (List.mem_mergeSort.mp present)) found
    exact ⟨outer, List.mem_mergeSort.mp upper, inner, List.mem_mergeSort.mp lower, rfl, crossing⟩
  · contradiction

/-- Entries have a nesting if and only if no two of them cross. -/
theorem exists_ofEntries_iff :
    (∃ nesting, ofEntries entries = .ok nesting) ↔
      ∀ a ∈ entries, ∀ b ∈ entries, ¬ a.span.Crosses b.span := by
  constructor
  · rintro ⟨nesting, nested⟩ a left b right
    have nests := nests_of_ofEntries distinct proper nested
      (fun _ _ => UInt64.zero_le) (fun _ _ => Span.le_last _)
    apply nests.within.not_crosses
    · rw [nests.labels]
      exact List.mem_mergeSort.mpr left
    · rw [nests.labels]
      exact List.mem_mergeSort.mpr right
  · intro apart
    cases outcome : ofEntries entries with
    | ok nesting => exact ⟨nesting, rfl⟩
    | error error =>
      obtain ⟨outer, upper, inner, lower, _, crossing⟩ :=
        crosses_of_ofEntries distinct proper outcome
      exact absurd crossing (apart outer upper inner lower)

end OfEntries

end Laminar.Nesting
