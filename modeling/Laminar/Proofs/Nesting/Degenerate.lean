import Laminar.Proofs.Grove.Pruning
import Laminar.Proofs.Nesting.Renumbering

/-!
# Nesting of tags that hold no offset

A tag that holds no offset is nested like any other, but nothing is put below it, and what is above
it encloses it. So it has no part in a crossing, and without it the others nest as they do with it
(`ofEntries_filter`). What is above it are the tags that hold its beginning, so its parent is the
innermost of these (`parent_of_degenerate`).
-/

namespace Laminar

/-! ## The first members of an ordered list -/

section While

variable {α : Type} {p : α → Bool} {list : List α}
  (closed : list.Pairwise fun a b => p b = true → p a = true)

include closed

/-- If a condition holds of all that comes before what it holds of, it holds of the first members
and no others. -/
theorem takeWhile_eq_filter : list.takeWhile p = list.filter p := by
  induction list with
  | nil => rfl
  | cons x rest later =>
    obtain ⟨first, closed⟩ := List.pairwise_cons.mp closed
    by_cases holds : p x = true
    · rw [List.takeWhile_cons_of_pos holds, List.filter_cons_of_pos holds, later closed]
    · have none : rest.filter p = [] :=
        List.filter_eq_nil_iff.mpr fun y present after => holds (first y present after)
      rw [List.takeWhile_cons_of_neg holds, List.filter_cons_of_neg holds, none]

/-- What comes after the first members is all that the condition does not hold of. -/
theorem dropWhile_eq_filter : list.dropWhile p = list.filter fun x => !p x := by
  induction list with
  | nil => rfl
  | cons x rest later =>
    obtain ⟨first, closed⟩ := List.pairwise_cons.mp closed
    by_cases holds : p x = true
    · rw [List.dropWhile_cons_of_pos holds, List.filter_cons_of_neg (by simpa using holds),
        later closed]
    · refine (List.dropWhile_cons_of_neg holds).trans (List.filter_eq_self.mpr ?_).symm
      refine List.forall_mem_cons.mpr ⟨by simpa using holds, fun y present => ?_⟩
      simpa using mt (first y present) holds

/-- The first members may be taken before others are left out or afterwards. -/
theorem takeWhile_filter (q : α → Bool) :
    (list.filter q).takeWhile p = (list.takeWhile p).filter q := by
  rw [takeWhile_eq_filter (closed.filter q), takeWhile_eq_filter closed, List.filter_filter,
    List.filter_filter]
  exact List.filter_congr fun x _ => Bool.and_comm _ _

/-- The first members may be dropped before others are left out or afterwards. -/
theorem dropWhile_filter (q : α → Bool) :
    (list.filter q).dropWhile p = (list.dropWhile p).filter q := by
  rw [dropWhile_eq_filter (closed.filter q), dropWhile_eq_filter closed, List.filter_filter,
    List.filter_filter]
  exact List.filter_congr fun x _ => Bool.and_comm _ _

end While

/-- The first result is found without the members that give none. -/
theorem findSome?_filter {α β : Type} {f : α → Option β} {p : α → Bool} {list : List α}
    (silent : ∀ x ∈ list, p x = false → f x = none) :
    (list.filter p).findSome? f = list.findSome? f := by
  rw [← List.head?_filterMap, ← List.head?_filterMap, List.filterMap_filter]
  refine congrArg List.head? (List.filterMap_congr fun x present => ?_)
  cases kept : p x with
  | true => rfl
  | false => exact (silent x present kept).symm

/-- The tag of an entry holds an offset. -/
def Entry.isProper (entry : Entry) : Bool :=
  ¬ entry.span.Degenerate

/-- An entry that is not proper holds no offset. -/
theorem Entry.isProper_eq_false_iff (entry : Entry) :
    entry.isProper = false ↔ entry.span.Degenerate := by
  simp [isProper]

/-- Entries with distinct places may be left out before the others are sorted or afterwards. -/
theorem Entry.mergeSort_filter {entries : List Entry}
    (distinct : entries.Pairwise fun a b => a.index ≠ b.index) (p : Entry → Bool) :
    (entries.filter p).mergeSort comesFirst = (entries.mergeSort comesFirst).filter p := by
  refine List.Perm.eq_of_pairwise (fun a b _ _ first second => absurd second first.asymm)
    (pairwise_before_mergeSort (distinct.filter p))
    ((pairwise_before_mergeSort distinct).filter p) ?_
  exact (List.mergeSort_perm _ _).trans ((List.mergeSort_perm _ _).filter p).symm

namespace Nesting

/-! ## Without the tags that hold no offset -/

section Sorted

variable {entries : List Entry} (sorted : entries.Pairwise Entry.Before)

include sorted

/-- What begins before an entry ends comes before what begins later. -/
theorem pairwise_begins (stop : UInt64) :
    entries.Pairwise fun a b =>
      decide (b.span.start < stop) = true → decide (a.span.start < stop) = true := by
  refine sorted.imp fun first begins => ?_
  rw [decide_eq_true_eq] at *
  exact UInt64.lt_of_le_of_lt first.start_le begins

/-- Only what holds an offset has something below it. -/
theorem families_isProper :
    (group entries).Families fun outer children => outer.isProper = false → children = [] := by
  refine (families_group sorted).imp fun outer children below degenerate => ?_
  rw [Entry.isProper_eq_false_iff] at degenerate
  refine List.eq_nil_iff_forall_not_mem.mpr fun inner child => ?_
  obtain ⟨before, begins⟩ := below inner child
  exact UInt64.not_lt.mpr (UInt64.le_trans degenerate before.start_le) begins

/-- Without the entries that hold no offset the others are grouped as they are with them. What comes
after an entry that holds none begins no earlier than it ends, so nothing is put below it. -/
theorem group_filter : group (entries.filter Entry.isProper) =
    (group entries).prune Entry.isProper := by
  fun_induction group entries with
  | case1 => rw [List.filter_nil, group, Grove.prune]
  | case2 entry rest begins inner later =>
    obtain ⟨first, sorted⟩ := List.pairwise_cons.mp sorted
    have lower := inner (sorted.sublist (List.takeWhile_sublist _))
    have right := later (sorted.sublist (List.dropWhile_sublist _))
    have closed := pairwise_begins sorted entry.span.stop
    cases proper : entry.isProper with
    | true =>
      rw [List.filter_cons_of_pos proper, group, takeWhile_filter closed, dropWhile_filter closed,
        lower, right, Grove.prune, if_pos proper]
    | false =>
      have after : ∀ other ∈ rest, begins other = false := by
        intro other present
        rw [Entry.isProper_eq_false_iff] at proper
        refine decide_eq_false (UInt64.not_lt.mpr ?_)
        exact UInt64.le_trans proper (first other present).start_le
      have all : rest.dropWhile begins = rest := by
        rw [dropWhile_eq_filter closed]
        exact List.filter_eq_self.mpr fun other present => by simp [begins, after other present]
      rw [List.filter_cons_of_neg (by simp [proper]), Grove.prune, proper, ← right, all]
      rfl

/-- The first crossing is between entries that hold an offset. -/
theorem firstCrossing?_prune :
    firstCrossing? ((group entries).prune Entry.isProper) = firstCrossing? (group entries) := by
  rw [firstCrossing?, Grove.links_prune (families_isProper sorted)]
  refine findSome?_filter fun link linked degenerate => ?_
  obtain ⟨inner, above⟩ := link
  cases above with
  | none => rfl
  | some outer =>
    rw [Entry.isProper_eq_false_iff] at degenerate
    obtain ⟨before, begins⟩ :=
      (Grove.forall_links_iff _ _).mpr (families_group sorted) _ linked outer rfl
    exact if_pos ⟨before.start_le, UInt64.le_trans degenerate (UInt64.le_of_lt begins)⟩

end Sorted

/-- Without the entries that hold no offset the others nest as they do with them, or cross as they
do with them. -/
theorem ofEntries_filter {entries : List Entry}
    (distinct : entries.Pairwise fun a b => a.index ≠ b.index) :
    ofEntries (entries.filter Entry.isProper) =
      (ofEntries entries).map (Grove.prune Entry.isProper) := by
  have sorted := Entry.pairwise_before_mergeSort distinct
  rw [ofEntries, ofEntries, Entry.mergeSort_filter distinct, group_filter sorted,
    firstCrossing?_prune sorted]
  cases firstCrossing? (group (entries.mergeSort Entry.comesFirst)) with
  | none => rfl
  | some crossing => rfl

/-! ## What is above an entry -/

/-- Every place of a group is that of a grouped entry. -/
theorem label_mem_of_mem_group {entries above : List Entry} {place : Grove.Place Entry}
    (placed : place ∈ (group entries).placesBelow above) : place.label ∈ entries := by
  rw [← labels_group entries]
  exact Grove.label_mem_of_mem_placesBelow placed

/-- Nested entries end no later than the last of the trees. -/
theorem stop_le_of_roots {nesting : Grove Entry}
    (enclosed : nesting.Families fun outer children =>
      ∀ inner ∈ children, outer.span.Encloses inner.span) {bound : UInt64}
    (children : ∀ root ∈ nesting.roots, root.span.stop ≤ bound) :
    ∀ entry ∈ nesting.labels, entry.span.stop ≤ bound := by
  intro entry present
  have transitive : ∀ a b c : Entry, a.span.Encloses b.span → b.span.Encloses c.span →
      a.span.Encloses c.span := fun _ _ _ => Span.Encloses.trans
  obtain ⟨root, top, covers⟩ := enclosed.exists_root transitive entry present
  rcases covers with rfl | encloses
  · exact children root top
  · exact UInt64.le_trans encloses.2 (children root top)

section Above

variable {entries : List Entry} (sorted : entries.Pairwise Entry.Before)
  (enclosed : (group entries).Families fun outer children =>
    ∀ inner ∈ children, outer.span.Encloses inner.span)

include sorted enclosed

/-- Above a grouped entry is what is above the group and what comes before the entry and has not
ended where it begins. What comes before the entries beside the first one has ended where they
begin. -/
theorem mem_above_group_iff (above : List Entry) {place : Grove.Place Entry}
    (placed : place ∈ (group entries).placesBelow above) (outer : Entry) :
    outer ∈ place.above ↔
      outer ∈ above ∨ outer ∈ entries ∧ outer.Before place.label ∧
        place.label.span.start < outer.span.stop := by
  fun_induction group entries generalizing above with
  | case1 => contradiction
  | case2 entry rest begins inner later =>
    obtain ⟨first, sorted⟩ := List.pairwise_cons.mp sorted
    obtain ⟨children, lower, right⟩ := enclosed
    have split : rest.takeWhile begins ++ rest.dropWhile begins = rest :=
      List.takeWhile_append_dropWhile
    have order := sorted
    rw [← split] at order
    obtain ⟨front, back, across⟩ := List.pairwise_append.mp order
    have among : outer ∈ rest ↔ outer ∈ rest.takeWhile begins ∨ outer ∈ rest.dropWhile begins := by
      rw [← List.mem_append, split]
    rw [Grove.placesBelow, List.mem_cons, List.mem_append] at placed
    rw [List.mem_cons, among]
    rcases placed with rfl | placed | placed
    · -- Nothing in the group comes before its first entry.
      refine ⟨.inl, fun found => found.resolve_right ?_⟩
      rintro ⟨rfl | present, before, -⟩
      · exact Entry.Before.irrefl _ before
      · exact (first outer (among.mpr present)).asymm before
    · have below : place.label ∈ rest.takeWhile begins := label_mem_of_mem_group placed
      have here : entry.Before place.label := first _ ((List.takeWhile_sublist _).subset below)
      have begun : place.label.span.start < entry.span.stop := by
        simpa [begins] using List.mem_takeWhile_imp below
      rw [inner front lower (entry :: above) placed, List.mem_cons]
      constructor
      · rintro ((rfl | higher) | ⟨present, found⟩)
        · exact .inr ⟨.inl rfl, here, begun⟩
        · exact .inl higher
        · exact .inr ⟨.inr (.inl present), found⟩
      · rintro (higher | ⟨rfl | present | after, before, unended⟩)
        · exact .inl (.inr higher)
        · exact .inl (.inl rfl)
        · exact .inr ⟨present, before, unended⟩
        · exact absurd before (across place.label below outer after).asymm
    · have beside : place.label ∈ rest.dropWhile begins := label_mem_of_mem_group placed
      have ended := stop_le_of_mem_dropWhile sorted place.label beside
      rw [later back right above placed]
      refine or_congr_right ⟨fun found => ⟨.inr (.inr found.1), found.2⟩, ?_⟩
      rintro ⟨rfl | present | after, before, unended⟩
      · exact absurd ended (UInt64.not_le.mpr unended)
      · rw [← labels_group (rest.takeWhile begins)] at present
        have inside := stop_le_of_roots lower (fun root top => (children root top).2) outer present
        exact absurd (UInt64.le_trans inside ended) (UInt64.not_le.mpr unended)
      · exact ⟨after, before, unended⟩

/-- Above an entry that holds no offset are the entries that hold its beginning. -/
theorem mem_above_iff_holds {place : Grove.Place Entry} (placed : place ∈ (group entries).places)
    (degenerate : place.label.span.Degenerate) (outer : Entry) :
    outer ∈ place.above ↔ outer ∈ entries ∧ outer.span.Holds place.label.span.start := by
  rw [mem_above_group_iff sorted enclosed [] placed, or_iff_right List.not_mem_nil]
  refine and_congr_right fun _ => ⟨fun found => ⟨found.1.start_le, found.2⟩, fun holds => ?_⟩
  refine ⟨?_, holds.2⟩
  rcases UInt64.lt_or_eq_of_le holds.1 with less | same
  · exact .inl less
  · refine .inr ⟨same, .inl ?_⟩
    exact UInt64.lt_of_le_of_lt degenerate holds.2

/-- What is above an entry encloses what is nearer to it and comes before it. -/
theorem pairwise_above {place : Grove.Place Entry} (placed : place ∈ (group entries).places) :
    (place.label :: place.above).Pairwise
      fun near far => far.Before near ∧ far.span.Encloses near.span := by
  have before : (group entries).Families fun outer children =>
      ∀ inner ∈ children, outer.Before inner :=
    (families_group sorted).imp fun _ _ found inner child => (found inner child).1
  have order : ∀ a b c : Entry, a.Before b → b.Before c → a.Before c :=
    fun _ _ _ => Entry.Before.trans
  have enclosure : ∀ a b c : Entry, a.span.Encloses b.span → b.span.Encloses c.span →
      a.span.Encloses c.span := fun _ _ _ => Span.Encloses.trans
  exact (before.chain order place placed).and (enclosed.chain enclosure place placed)

end Above

/-! ## The parent of a tag that holds no offset -/

/-- The tag emitted at an index holds an offset, and every other tag that holds it encloses this
one. Of tags with its span it is the last. -/
def Innermost (tags : List Tag) (offset : UInt64) (index : Nat) : Prop :=
  ∃ tag, tags[index]? = some tag ∧ tag.span.Holds offset ∧
    ∀ other outer, tags[other]? = some outer → outer.span.Holds offset → other ≠ index →
      Encloser tags other index

/-- Two tags do not enclose each other. -/
theorem Encloser.asymm {tags : List Tag} {a b : Nat} (first : Encloser tags a b) :
    ¬ Encloser tags b a := by
  rintro ⟨x, y, x_tag, y_tag, -, outer, order⟩
  obtain ⟨u, v, u_tag, v_tag, -, inner, reverse⟩ := first
  obtain rfl : y = u := Option.some.inj (y_tag.symm.trans u_tag)
  obtain rfl : x = v := Option.some.inj (x_tag.symm.trans v_tag)
  have same : x.span = y.span :=
    (Span.eq_iff _ _).mpr ⟨UInt64.le_antisymm outer.1 inner.1, UInt64.le_antisymm inner.2 outer.2⟩
  have left := order.resolve_left fun different => different same
  have right := reverse.resolve_left fun different => different same.symm
  exact Nat.lt_asymm left right

/-- One tag at most is innermost. -/
theorem Innermost.unique {tags : List Tag} {offset : UInt64} {a b : Nat}
    (first : Innermost tags offset a) (second : Innermost tags offset b) : a = b := by
  by_contra different
  obtain ⟨x, x_tag, x_holds, x_least⟩ := first
  obtain ⟨y, y_tag, y_holds, y_least⟩ := second
  exact (x_least b y y_tag y_holds (Ne.symm different)).asymm
    (y_least a x x_tag x_holds different)

/-- The nesting of entries groups them in the order of nesting, and each encloses those just below
it. -/
theorem of_ofEntries {entries : List Entry} {nesting : Grove Entry}
    (nested : ofEntries entries = .ok nesting) :
    nesting = group (entries.mergeSort Entry.comesFirst) ∧
      nesting.Families fun outer children =>
        ∀ inner ∈ children, outer.span.Encloses inner.span := by
  simp only [ofEntries] at nested
  split at nested
  · contradiction
  · next none_crossing =>
    obtain rfl := Except.ok.inj nested
    exact ⟨rfl, (firstCrossing?_eq_none_iff _).mp none_crossing⟩

section Resolved

variable {tags : List Tag} {nesting : Grove Entry}
  (nested : ofEntries (Entry.numbered 0 tags) = .ok nesting)

include nested

/-- Every entry is in the nesting once. -/
theorem labels_perm_of_ofEntries : nesting.labels.Perm (Entry.numbered 0 tags) := by
  rw [(of_ofEntries nested).1, labels_group]
  exact List.mergeSort_perm _ _

/-- What is just above an entry holds an offset. -/
theorem not_degenerate_of_mem_links {link : Entry × Option Entry} (linked : link ∈ nesting.links)
    {outer : Entry} (upper : outer ∈ link.2) : ¬ outer.span.Degenerate := by
  rw [(of_ofEntries nested).1] at linked
  have sorted := Entry.pairwise_before_mergeSort (Entry.pairwise_index_ne_numbered tags)
  obtain ⟨before, begins⟩ :=
    (Grove.forall_links_iff _ _).mpr (families_group sorted) _ linked outer upper
  rw [Span.not_degenerate_iff]
  exact UInt64.lt_of_le_of_lt before.start_le begins

/-- A parent holds an offset. -/
theorem not_degenerate_of_mem_parents {parent : Nat} (listed : some parent ∈ parents nesting) :
    ∃ tag, tags[parent]? = some tag ∧ ¬ tag.span.Degenerate := by
  obtain ⟨link, sorted, upper⟩ := List.mem_map.mp listed
  obtain ⟨outer, above, rfl⟩ := Option.map_eq_some_iff.mp upper
  have linked := List.mem_mergeSort.mp sorted
  have present := (labels_perm_of_ofEntries nested).mem_iff.mp
    (Grove.mem_labels_of_mem_links linked above)
  exact ⟨outer.tag, Entry.mem_numbered.mp present, not_degenerate_of_mem_links nested linked above⟩

section Place

variable {place : Grove.Place Entry} (placed : place ∈ nesting.places)
  (degenerate : place.label.span.Degenerate)

include placed degenerate

/-- Above a place that holds no offset are the emitted tags that hold its beginning. -/
theorem mem_above_iff_emitted (outer : Entry) :
    outer ∈ place.above ↔
      tags[outer.index]? = some outer.tag ∧ outer.span.Holds place.label.span.start := by
  obtain ⟨rfl, enclosed⟩ := of_ofEntries nested
  have sorted := Entry.pairwise_before_mergeSort (Entry.pairwise_index_ne_numbered tags)
  rw [mem_above_iff_holds sorted enclosed placed degenerate, List.mem_mergeSort, Entry.mem_numbered]

/-- An entry that holds no offset has nothing above it if and only if no tag holds its beginning. -/
theorem parent?_eq_none_iff_holds :
    place.parent? = none ↔ ∀ tag ∈ tags, ¬ tag.span.Holds place.label.span.start := by
  rw [Grove.Place.parent?, List.head?_eq_none_iff, List.eq_nil_iff_forall_not_mem]
  simp only [mem_above_iff_emitted nested placed degenerate, not_and]
  constructor
  · intro none tag present
    obtain ⟨index, found⟩ := List.mem_iff_getElem?.mp present
    exact none ⟨index, tag⟩ found
  · intro none outer emitted
    exact none outer.tag (List.mem_of_getElem? emitted)

/-- What is just above an entry that holds no offset is the innermost tag that holds its
beginning. -/
theorem innermost_of_parent? {outer : Entry} (just_above : place.parent? = some outer) :
    Innermost tags place.label.span.start outer.index := by
  have higher := mem_above_iff_emitted nested placed degenerate
  obtain ⟨emitted, holds⟩ := (higher outer).mp (List.mem_of_head? just_above)
  refine ⟨outer.tag, emitted, holds, fun other tag found also different => ?_⟩
  have present : (⟨other, tag⟩ : Entry) ∈ place.above := (higher ⟨other, tag⟩).mpr ⟨found, also⟩
  obtain ⟨rest, split⟩ := List.head?_eq_some_iff.mp just_above
  obtain ⟨rfl, enclosed⟩ := of_ofEntries nested
  have sorted := Entry.pairwise_before_mergeSort (Entry.pairwise_index_ne_numbered tags)
  have order := (List.pairwise_cons.mp (pairwise_above sorted enclosed placed)).2
  rw [split] at order present
  have farther : (⟨other, tag⟩ : Entry) ∈ rest :=
    (List.mem_cons.mp present).resolve_left fun same => different (congrArg Entry.index same)
  have relation := (List.pairwise_cons.mp order).1 _ farther
  exact (encloser_iff (Entry.mem_numbered.mpr emitted) other).mpr
    ⟨⟨other, tag⟩, Entry.mem_numbered.mpr found, rfl, relation⟩

end Place

/-- The parent of a tag that holds no offset is the innermost tag that holds its beginning, if there
is one that does. -/
theorem parent_of_degenerate {index : Nat} {tag : Tag} (emitted : tags[index]? = some tag)
    (degenerate : tag.span.Degenerate) :
    ((parents nesting)[index]? = some none ↔ ∀ outer ∈ tags, ¬ outer.span.Holds tag.span.start) ∧
      ∀ parent, (parents nesting)[index]? = some (some parent) ↔
        Innermost tags tag.span.start parent := by
  have labels := labels_perm_of_ofEntries nested
  have numbered : (⟨index, tag⟩ : Entry) ∈ Entry.numbered 0 tags := Entry.mem_numbered.mpr emitted
  obtain ⟨place, placed, label⟩ :=
    Grove.exists_place_of_mem_labels [] (labels.mem_iff.mpr numbered)
  have linked : (place.label, place.parent?) ∈ nesting.links := List.mem_map_of_mem placed
  have listed := getElem?_parents labels linked
  have top := parent?_eq_none_iff_holds nested placed (label ▸ degenerate)
  have least : ∀ outer, place.parent? = some outer → _ :=
    fun outer => innermost_of_parent? nested placed (label ▸ degenerate)
  rw [label] at listed top least
  rw [listed]
  constructor
  · rw [Option.some.injEq, Option.map_eq_none_iff]
    exact top
  · intro parent
    rw [Option.some.injEq]
    constructor
    · intro found
      obtain ⟨outer, just_above, rfl⟩ := Option.map_eq_some_iff.mp found
      exact least outer just_above
    · intro innermost
      cases just_above : place.parent? with
      | none =>
        obtain ⟨outer, found, holds, -⟩ := innermost
        exact absurd holds (top.mp just_above outer (List.mem_of_getElem? found))
      | some outer => exact congrArg some ((least outer just_above).unique innermost)

/-- In the order of emission the entries without those that hold no offset are the others. -/
theorem map_fst_links_prune :
    ((nesting.prune Entry.isProper).links.mergeSort byEmission).map Prod.fst =
      Entry.proper tags := by
  have distinct := Entry.pairwise_index_ne_numbered tags
  obtain ⟨rfl, -⟩ := of_ofEntries nested
  refine map_fst_mergeSort_links ?_ ((Entry.pairwise_index_numbered 0 tags).filter _)
  rw [← group_filter (Entry.pairwise_before_mergeSort distinct), labels_group]
  exact (List.mergeSort_perm _ _).filter _

/-- The parents of these are what they are without the entries that hold no offset. -/
theorem getElem?_parents_of_prune {link : Entry × Option Entry}
    (linked : link ∈ (nesting.prune Entry.isProper).links) :
    (parents nesting)[link.1.index]? = some (link.2.map Entry.index) := by
  have labels := labels_perm_of_ofEntries nested
  have sorted := Entry.pairwise_before_mergeSort (Entry.pairwise_index_ne_numbered tags)
  obtain ⟨rfl, -⟩ := of_ofEntries nested
  rw [Grove.links_prune (families_isProper sorted)] at linked
  exact getElem?_parents labels (List.mem_of_mem_filter linked)

/-- Restricted to the tags that hold an offset, the parents are those of the nesting without the
others. -/
theorem parents_prune :
    (Entry.proper tags).map (fun entry => (parents nesting)[entry.index]?) =
      (parents (nesting.prune Entry.isProper)).map some := by
  rw [← map_fst_links_prune nested, List.map_map]
  refine Eq.trans ?_ (List.map_map ..).symm
  exact List.map_congr_left fun link present =>
    getElem?_parents_of_prune nested (List.mem_mergeSort.mp present)

end Resolved

/-- The tags that hold an offset resolve as they do without the others, but for their places. -/
theorem resolve_filter (tags : List Tag) :
    (resolve tags).map (fun result => (Entry.proper tags).map fun entry => result[entry.index]?) =
      (resolve (tags.filter fun tag => ¬ tag.span.Degenerate)).map
        (List.map fun parent => some (parent.map (Entry.properIndex tags))) := by
  have without := ofEntries_filter (Entry.pairwise_index_ne_numbered tags)
  have renumbered := ofEntries_renumbered (Entry.keepsOrder_properIndex tags)
  rw [Entry.map_renumbered_numbered] at renumbered
  have same := without.symm.trans renumbered
  unfold resolve
  cases nested : ofEntries (Entry.numbered 0 tags) with
  | error error =>
    cases alone : ofEntries (Entry.numbered 0 (tags.filter fun tag => ¬ tag.span.Degenerate)) with
    | error other =>
      rw [nested, alone] at same
      exact congrArg Except.error (Except.error.inj same)
    | ok nesting =>
      rw [nested, alone] at same
      contradiction
  | ok nesting =>
    cases alone : ofEntries (Entry.numbered 0 (tags.filter fun tag => ¬ tag.span.Degenerate)) with
    | error other =>
      rw [nested, alone] at same
      contradiction
    | ok other =>
      rw [nested, alone] at same
      have pruned : nesting.prune Entry.isProper =
          other.map (Entry.renumbered (Entry.properIndex tags)) := Except.ok.inj same
      have keeps : Entry.KeepsOrder (Entry.properIndex tags) other.labels := by
        have emitted : ∀ entry, entry ∈ other.labels → entry ∈ Entry.numbered 0 _ :=
          fun _ => (labels_perm_of_ofEntries alone).mem_iff.mp
        exact fun a left b right => Entry.keepsOrder_properIndex tags a (emitted a left) b
          (emitted b right)
      refine congrArg Except.ok ((parents_prune nested).trans ?_)
      rw [pruned, parents_renumbered keeps, List.map_map]
      rfl

end Nesting

end Laminar
