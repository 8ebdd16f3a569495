import Laminar.Proofs.Nesting.Degenerate
import Laminar.Proofs.Nesting.Sweep

/-!
# The crossing that a sweep reports

While a sweep goes on, what is open are the entries that have not ended, the latest first, and each
encloses those after it (`Tracks`). The entry that begins next crosses one before it if and only if
the innermost open one does not enclose it, and then this is the latest that it crosses. So a sweep
that fails reports the first entry in the order of nesting that crosses one before it, with the last
one before it that it crosses (`FirstCrossing`). The spans of these two do not depend on the order
of emission (`FirstCrossing.span_eq`).
-/

namespace Laminar

/-- Spans that cross are different. -/
theorem Span.Crosses.ne {a b : Span} (crosses : a.Crosses b) : a ≠ b := by
  rintro rfl
  exact crosses.2.1 (Encloses.refl _)

namespace Entry

/-- Of two entries in the order of nesting the spans cross if and only if the second begins before
the first ends, and ends after it. -/
theorem Before.crosses_iff {a b : Entry} (first : a.Before b)
    (proper : b.span.start < b.span.stop) :
    a.span.Crosses b.span ↔ b.span.start < a.span.stop ∧ a.span.stop < b.span.stop := by
  rw [before_iff] at first
  simp only [Span.Crosses, Span.Overlaps, Span.Encloses, UInt64.lt_iff_toNat_lt,
    UInt64.le_iff_toNat_le] at *
  omega

/-- The first of two entries that cross begins before the second. -/
theorem Before.start_lt_of_crosses {a b : Entry} (first : a.Before b)
    (crosses : a.span.Crosses b.span) : a.span.start < b.span.start := by
  rw [before_iff] at first
  simp only [Span.Crosses, Span.Encloses, UInt64.lt_iff_toNat_lt, UInt64.le_iff_toNat_le] at *
  omega

/-- The order of entries with different spans depends on the spans alone. -/
theorem Before.congr {a b c d : Entry} (first : a.Before b) (left : c.span = a.span)
    (right : d.span = b.span) (different : a.span ≠ b.span) : c.Before d := by
  rw [Ne, Span.eq_iff, ← UInt64.toNat_inj, ← UInt64.toNat_inj] at different
  rw [before_iff] at first ⊢
  rw [left, right]
  omega

end Entry

namespace Nesting

/-- The first crossing among entries in the order of nesting: the first entry that crosses one
before it, with the last one before it that it crosses. -/
structure FirstCrossing (entries : List Entry) (outer inner : Entry) : Prop where
  /-- Both are among the entries. -/
  present : outer ∈ entries ∧ inner ∈ entries
  /-- One comes before the other. -/
  before : outer.Before inner
  /-- They cross. -/
  crosses : outer.span.Crosses inner.span
  /-- No entry that comes earlier crosses one before it. -/
  earliest : ∀ a ∈ entries, ∀ b ∈ entries, a.Before b → a.span.Crosses b.span →
    b = inner ∨ inner.Before b
  /-- No entry that comes later crosses it from before. -/
  latest : ∀ a ∈ entries, a.Before inner → a.span.Crosses inner.span → a = outer ∨ a.Before outer

end Nesting

namespace Sweep

open Nesting (FirstCrossing)

/-- Where a sweep stands after some entries that do not cross. -/
structure Tracks (begun : List Entry) (sweep : Sweep) : Prop where
  /-- The open entries have begun, and the later ones come first. -/
  opened : sweep.opened.Sublist begun.reverse
  /-- Each open entry encloses those that were opened after it. -/
  nested : sweep.opened.Pairwise fun inner outer => outer.span.Encloses inner.span
  /-- An entry that is not open any more ended before another one began. -/
  ended : ∀ entry ∈ begun, entry ∈ sweep.opened ∨
    ∃ other ∈ begun, entry.span.stop ≤ other.span.start
  /-- No two entries cross. -/
  apart : ∀ a ∈ begun, ∀ b ∈ begun, ¬ a.span.Crosses b.span

/-- At first no entry has begun. -/
theorem tracks_initial (entries : List Entry) : Tracks [] (initial entries) :=
  ⟨List.Sublist.refl _, List.Pairwise.nil, by simp, by simp⟩

/-! ## One step -/

section Step

variable {begun : List Entry} {sweep next : Sweep} {entry : Entry} {place : Nat}
  {error : HierarchyError} (tracks : Tracks begun sweep)

/-- An entry is opened on top of what is still open, and the innermost of that encloses it. -/
theorem of_enter_eq_ok (entered : sweep.enter entry place = .ok next) :
    next.opened = entry :: sweep.stillOpen entry ∧
      ∀ outer ∈ (sweep.stillOpen entry).head?, outer.span.Encloses entry.span := by
  rw [enter] at entered
  split at entered
  · next still =>
    obtain rfl := Except.ok.inj entered
    simp [still]
  · next outer above still =>
    split at entered
    · next encloses =>
      obtain rfl := Except.ok.inj entered
      simpa [still] using encloses
    · contradiction

/-- An entry that is not opened is reported with the innermost one that is still open, which does
not enclose it. -/
theorem of_enter_eq_error (failed : sweep.enter entry place = .error error) :
    ∃ outer above, sweep.stillOpen entry = outer :: above ∧
      ¬ outer.span.Encloses entry.span ∧ error = .crossing outer.tag entry.tag := by
  rw [enter] at failed
  split at failed
  · contradiction
  · next outer above still =>
    split at failed
    · contradiction
    · next crossing => exact ⟨outer, above, still, crossing, (Except.error.inj failed).symm⟩

include tracks

/-- What is still open where an entry begins are the open ones that end after that. -/
theorem Tracks.stillOpen_eq (entry : Entry) :
    sweep.stillOpen entry = sweep.opened.filter fun top => entry.span.start < top.span.stop := by
  have closed : sweep.opened.Pairwise fun inner outer =>
      decide (outer.span.stop ≤ entry.span.start) = true →
        decide (inner.span.stop ≤ entry.span.start) = true := by
    refine tracks.nested.imp fun encloses ended => ?_
    rw [decide_eq_true_eq] at *
    exact UInt64.le_trans encloses.2 ended
  rw [stillOpen, dropWhile_eq_filter closed]
  refine List.filter_congr fun top _ => ?_
  rw [← decide_not]
  exact decide_eq_decide.mpr UInt64.not_le

/-- What is still open comes as it was opened, the latest first. -/
theorem Tracks.stillOpen_sublist (entry : Entry) :
    (sweep.stillOpen entry).Sublist begun.reverse := by
  rw [tracks.stillOpen_eq]
  exact List.filter_sublist.trans tracks.opened

variable (sorted : begun.Pairwise Entry.Before)
  (after : ∀ earlier ∈ begun, earlier.Before entry)

include after in
/-- What is still open where an entry begins is all that has begun and has not ended then. -/
theorem Tracks.mem_stillOpen_iff (other : Entry) :
    other ∈ sweep.stillOpen entry ↔ other ∈ begun ∧ entry.span.start < other.span.stop := by
  rw [tracks.stillOpen_eq, List.mem_filter, decide_eq_true_eq]
  refine and_congr_left fun begins => ⟨fun listed => ?_, fun present => ?_⟩
  · exact List.mem_reverse.mp (tracks.opened.subset listed)
  · rcases tracks.ended other present with listed | ⟨later, begunLater, ended⟩
    · exact listed
    · have passed := UInt64.le_trans ended (after later begunLater).start_le
      exact absurd begins (UInt64.not_lt.mpr passed)

include sorted in
/-- The innermost one that is still open comes after the others. -/
theorem Tracks.eq_or_before {outer : Entry} {above : List Entry}
    (still : sweep.stillOpen entry = outer :: above) :
    ∀ other ∈ sweep.stillOpen entry, other = outer ∨ other.Before outer := by
  have latest := (List.pairwise_reverse.mpr sorted).sublist (tracks.stillOpen_sublist entry)
  rw [still] at latest ⊢
  intro other listed
  rcases List.mem_cons.mp listed with rfl | listed
  · exact .inl rfl
  · exact .inr ((List.pairwise_cons.mp latest).1 other listed)

variable (proper : entry.span.start < entry.span.stop)

include after proper

include sorted in
/-- An entry that is not opened crosses one that has begun, and what is reported with it is the last
one that it crosses. -/
theorem Tracks.crossing_of_enter (failed : sweep.enter entry place = .error error) :
    ∃ outer ∈ begun, error = .crossing outer.tag entry.tag ∧ outer.span.Crosses entry.span ∧
      ∀ other ∈ begun, other.span.Crosses entry.span → other = outer ∨ other.Before outer := by
  obtain ⟨outer, above, still, reaches, rfl⟩ := of_enter_eq_error failed
  have innermost : outer ∈ sweep.stillOpen entry := by
    rw [still]
    exact List.mem_cons_self
  obtain ⟨present, begins⟩ := (tracks.mem_stillOpen_iff after outer).mp innermost
  have before := after outer present
  refine ⟨outer, present, rfl, (before.crosses_iff proper).mpr ⟨begins, ?_⟩, ?_⟩
  · exact UInt64.not_le.mp fun ends => reaches ⟨before.start_le, ends⟩
  · intro other earlier crosses
    refine tracks.eq_or_before sorted still other ?_
    have overlaps := ((after other earlier).crosses_iff proper).mp crosses
    exact (tracks.mem_stillOpen_iff after other).mpr ⟨earlier, overlaps.1⟩

/-- An entry that is opened crosses none that has begun, and the sweep keeps track of it. -/
theorem Tracks.step (entered : sweep.enter entry place = .ok next) :
    Tracks (begun ++ [entry]) next := by
  obtain ⟨opened, innermost⟩ := of_enter_eq_ok entered
  have nested : (sweep.stillOpen entry).Pairwise fun inner outer =>
      outer.span.Encloses inner.span := by
    rw [tracks.stillOpen_eq]
    exact tracks.nested.filter _
  have encloses : ∀ outer ∈ sweep.stillOpen entry, outer.span.Encloses entry.span := by
    cases still : sweep.stillOpen entry with
    | nil => simp
    | cons top above =>
      rw [still] at innermost nested
      have first := innermost top rfl
      refine List.forall_mem_cons.mpr ⟨first, fun outer listed => ?_⟩
      exact ((List.pairwise_cons.mp nested).1 outer listed).trans first
  have crosses_none : ∀ other ∈ begun, ¬ other.span.Crosses entry.span := by
    intro other present crosses
    have overlaps := ((after other present).crosses_iff proper).mp crosses
    have still := (tracks.mem_stillOpen_iff after other).mpr ⟨present, overlaps.1⟩
    exact crosses.2.1 (encloses other still)
  constructor
  case opened =>
    rw [opened, List.reverse_append]
    exact (tracks.stillOpen_sublist entry).cons_cons entry
  case nested =>
    rw [opened]
    exact List.Pairwise.cons encloses nested
  case ended =>
    rw [opened, List.forall_mem_append, List.forall_mem_singleton]
    refine ⟨fun other present => ?_, .inl List.mem_cons_self⟩
    by_cases begins : entry.span.start < other.span.stop
    · have still := (tracks.mem_stillOpen_iff after other).mpr ⟨present, begins⟩
      exact .inl (List.mem_cons_of_mem entry still)
    · exact .inr ⟨entry, by simp, UInt64.not_lt.mp begins⟩
  case apart =>
    simp only [List.forall_mem_append, List.forall_mem_singleton]
    refine ⟨fun a left => ⟨tracks.apart a left, crosses_none a left⟩, fun b right => ?_, ?_⟩
    · exact fun crosses => crosses_none b right crosses.symm
    · exact fun crosses => crosses.2.1 (Span.Encloses.refl _)

end Step

/-! ## The run -/

/-- A sweep that fails reports the first crossing of all its entries. -/
theorem Tracks.firstCrossing_of_run {begun : List Entry} {sweep : Sweep}
    {members : List (Entry × Nat)} {error : HierarchyError} (tracks : Tracks begun sweep)
    (sorted : (begun ++ members.map Prod.fst).Pairwise Entry.Before)
    (proper : ∀ entry ∈ members.map Prod.fst, entry.span.start < entry.span.stop)
    (failed : sweep.run members = .error error) :
    ∃ outer inner, FirstCrossing (begun ++ members.map Prod.fst) outer inner ∧
      error = .crossing outer.tag inner.tag := by
  induction members generalizing begun sweep with
  | nil => contradiction
  | cons member rest later =>
    obtain ⟨entry, place⟩ := member
    simp only [List.map_cons, List.forall_mem_cons] at sorted proper ⊢
    obtain ⟨begunSorted, restSorted, across⟩ := List.pairwise_append.mp sorted
    have after : ∀ earlier ∈ begun, earlier.Before entry :=
      fun earlier present => across earlier present entry List.mem_cons_self
    have following := (List.pairwise_cons.mp restSorted).1
    rw [run] at failed
    cases entered : sweep.enter entry place with
    | ok next =>
      rw [entered] at failed
      rw [← List.singleton_append, ← List.append_assoc] at sorted ⊢
      exact later (tracks.step after proper.1 entered) sorted proper.2 failed
    | error reported =>
      rw [entered] at failed
      obtain rfl := Except.error.inj failed
      obtain ⟨outer, present, same, crosses, latest⟩ :=
        tracks.crossing_of_enter begunSorted after proper.1 entered
      refine ⟨outer, entry, ⟨⟨?_, ?_⟩, after outer present, crosses, ?_, ?_⟩, same⟩
      · exact List.mem_append_left _ present
      · exact List.mem_append_right _ List.mem_cons_self
      · intro a left b right before meets
        rcases List.mem_append.mp right with early | here
        · -- What comes before an entry that has begun has begun too.
          rcases List.mem_append.mp left with earlier | late
          · exact absurd meets (tracks.apart a earlier b early)
          · exact absurd before (across b early a late).asymm
        · exact (List.mem_cons.mp here).imp_right (following b)
      · intro a left before meets
        rcases List.mem_append.mp left with earlier | late
        · exact latest a earlier meets
        · rcases List.mem_cons.mp late with rfl | late
          · exact absurd before (Entry.Before.irrefl a)
          · exact absurd before (following a late).asymm

end Sweep

/-! ## Other orders of emission -/

namespace Nesting.FirstCrossing

variable {entries others : List Entry} {outer inner outer' inner' : Entry}
  (here : FirstCrossing entries outer inner)

include here

/-- The first one begins before the second and ends within it. -/
theorem staggered (proper : inner.span.start < inner.span.stop) :
    outer.span.start < inner.span.start ∧ inner.span.start < outer.span.stop ∧
      outer.span.stop < inner.span.stop :=
  ⟨here.before.start_lt_of_crosses here.crosses, (here.before.crosses_iff proper).mp here.crosses⟩

/-- It does not matter in which order the entries are listed. -/
theorem perm (same : others.Perm entries) : FirstCrossing others outer inner where
  present := here.present.imp same.mem_iff.mpr same.mem_iff.mpr
  before := here.before
  crosses := here.crosses
  earliest a left b right := here.earliest a (same.mem_iff.mp left) b (same.mem_iff.mp right)
  latest a left := here.latest a (same.mem_iff.mp left)

variable (there : FirstCrossing others outer' inner')

include there

/-- Where the spans of other entries are among those of the entries, the entries cross no later. -/
theorem inner_nestsFirst
    (covered : ∀ other ∈ others, ∃ entry ∈ entries, entry.span = other.span) :
    inner.span.NestsFirst inner'.span := by
  obtain ⟨a, left, sameOuter⟩ := covered outer' there.present.1
  obtain ⟨b, right, sameInner⟩ := covered inner' there.present.2
  have before : a.Before b := there.before.congr sameOuter sameInner there.crosses.ne
  have crosses : a.span.Crosses b.span := by
    rw [sameOuter, sameInner]
    exact there.crosses
  rw [← sameInner]
  rcases here.earliest a left b right before crosses with rfl | later
  · exact Span.NestsFirst.refl _
  · exact later.nestsFirst

/-- If the second ones have one span, then that of the other first one comes no later. -/
theorem outer_nestsFirst (same : inner.span = inner'.span)
    (covered : ∀ other ∈ others, ∃ entry ∈ entries, entry.span = other.span) :
    outer'.span.NestsFirst outer.span := by
  obtain ⟨a, left, sameOuter⟩ := covered outer' there.present.1
  have before : a.Before inner := there.before.congr sameOuter same there.crosses.ne
  have crosses : a.span.Crosses inner.span := by
    rw [sameOuter, same]
    exact there.crosses
  rw [← sameOuter]
  rcases here.latest a left before crosses with rfl | earlier
  · exact Span.NestsFirst.refl _
  · exact earlier.nestsFirst

/-- Entries of the same spans first cross in the same spans. -/
theorem span_eq (covers : ∀ entry ∈ entries, ∃ other ∈ others, other.span = entry.span)
    (covered : ∀ other ∈ others, ∃ entry ∈ entries, entry.span = other.span) :
    outer.span = outer'.span ∧ inner.span = inner'.span := by
  have same : inner.span = inner'.span :=
    (here.inner_nestsFirst there covered).antisymm (there.inner_nestsFirst here covers)
  exact ⟨(there.outer_nestsFirst here same.symm covers).antisymm
    (here.outer_nestsFirst there same covered), same⟩

end Nesting.FirstCrossing

namespace Sweep

open Nesting (FirstCrossing)

section Tightest

variable {tags : List Tag} (proper : ∀ tag ∈ tags, tag.span.start < tag.span.stop)

include proper

/-- A sweep over all tags that fails reports their first crossing. -/
theorem firstCrossing_of_tightest {error : HierarchyError}
    (failed : tightest (Entry.numbered 0 tags) = .error error) :
    ∃ outer inner, FirstCrossing (Entry.numbered 0 tags) outer inner ∧
      error = .crossing outer.tag inner.tag := by
  have swept : (initial (Entry.numbered 0 tags)).run (order (Entry.numbered 0 tags)) =
      .error error := by
    rw [tightest] at failed
    cases outcome : (initial (Entry.numbered 0 tags)).run (order (Entry.numbered 0 tags)) with
    | ok swept =>
      rw [outcome] at failed
      contradiction
    | error reported =>
      rw [outcome] at failed
      exact congrArg Except.error (Except.error.inj failed)
  have sorted := Entry.pairwise_before_mergeSort (Entry.pairwise_index_ne_numbered tags)
  have inside : ∀ entry ∈ (order (Entry.numbered 0 tags)).map Prod.fst,
      entry.span.start < entry.span.stop := by
    rw [map_fst_order]
    intro entry present
    exact proper _ (Entry.tag_mem_of_mem_numbered (List.mem_mergeSort.mp present))
  rw [← map_fst_order] at sorted
  obtain ⟨outer, inner, first, same⟩ := (tracks_initial _).firstCrossing_of_run sorted inside swept
  rw [List.nil_append, map_fst_order] at first
  exact ⟨outer, inner, first.perm (List.mergeSort_perm _ _).symm, same⟩

/-- Whether a sweep over all tags fails does not depend on the order of emission. -/
theorem exists_error_of_perm {others : List Tag} (same : others.Perm tags) {error : HierarchyError}
    (failed : tightest (Entry.numbered 0 tags) = .error error) :
    ∃ reported, tightest (Entry.numbered 0 others) = .error reported := by
  cases outcome : tightest (Entry.numbered 0 others) with
  | error reported => exact ⟨reported, rfl⟩
  | ok parents =>
    rw [tightest_numbered] at outcome failed
    have apart := (Nesting.exists_resolve_iff fun tag emitted =>
      proper tag (same.mem_iff.mp emitted)).mp ⟨parents, outcome⟩
    obtain ⟨other, resolved⟩ := (Nesting.exists_resolve_iff proper).mpr fun a left b right =>
      apart a (same.mem_iff.mpr left) b (same.mem_iff.mpr right)
    rw [resolved] at failed
    contradiction

end Tightest

/-- The spans of tags are those of the entries of the same tags in another order. -/
theorem exists_entry_of_perm {tags others : List Tag} (same : others.Perm tags) :
    ∀ other ∈ Entry.numbered 0 others, ∃ entry ∈ Entry.numbered 0 tags,
      entry.span = other.span := by
  intro other present
  have emitted := same.mem_iff.mp (Entry.tag_mem_of_mem_numbered present)
  obtain ⟨entry, numbered, tag⟩ := Entry.exists_mem_numbered emitted
  exact ⟨entry, numbered, congrArg Tag.span tag⟩

/-- If a sweep over tags that hold an offset fails, it reports the first entry in the order of
nesting that crosses one before it, together with the last one before it that it crosses. These two
are staggered. If the spans are all different, the two are the same for every order of emission. -/
theorem tightest_error {tags : List Tag}
    (proper : ∀ tag ∈ tags, tag.span.start < tag.span.stop) {error : HierarchyError}
    (failed : tightest (Entry.numbered 0 tags) = .error error) :
    ∃ outer inner, FirstCrossing (Entry.numbered 0 tags) outer inner ∧
      error = .crossing outer.tag inner.tag ∧
      error.message =
        "non-laminar input: " ++ outer.tag.text ++ " partially overlaps " ++ inner.tag.text ∧
      (outer.span.start < inner.span.start ∧ inner.span.start < outer.span.stop ∧
        outer.span.stop < inner.span.stop) ∧
      ((tags.map Tag.span).Nodup →
        ∀ others, others.Perm tags → tightest (Entry.numbered 0 others) = .error error) := by
  obtain ⟨outer, inner, first, rfl⟩ := firstCrossing_of_tightest proper failed
  have upper := Entry.tag_mem_of_mem_numbered first.present.1
  have lower := Entry.tag_mem_of_mem_numbered first.present.2
  refine ⟨outer, inner, first, rfl, rfl, first.staggered (proper _ lower), ?_⟩
  intro distinct others same
  obtain ⟨reported, fails⟩ := exists_error_of_perm proper same failed
  have there := firstCrossing_of_tightest (fun tag emitted => proper tag (same.mem_iff.mp emitted))
    fails
  obtain ⟨outer', inner', second, rfl⟩ := there
  have upper' := same.mem_iff.mp (Entry.tag_mem_of_mem_numbered second.present.1)
  have lower' := same.mem_iff.mp (Entry.tag_mem_of_mem_numbered second.present.2)
  obtain ⟨sameOuter, sameInner⟩ :=
    first.span_eq second (exists_entry_of_perm same.symm) (exists_entry_of_perm same)
  have outerTag := List.inj_on_of_nodup_map distinct upper upper' sameOuter
  have innerTag := List.inj_on_of_nodup_map distinct lower lower' sameInner
  rw [fails, outerTag, innerTag]

/-- Two tags that cross below a third one, after another one that has ended. -/
def crossBelow : List Tag :=
  [.raw 10 18 "later", .raw 8 14 "earlier", .raw 2 6 "ended", .raw 0 20 "all"]

/-- The crossing of `crossBelow` is found between its two tags that cross, in whatever order all are
emitted. -/
theorem tightest_error_crossBelow :
    (∃ outer inner, FirstCrossing (Entry.numbered 0 crossBelow) outer inner ∧
      outer.tag = .raw 8 14 "earlier" ∧ inner.tag = .raw 10 18 "later") ∧
      ∀ others, others.Perm crossBelow → tightest (Entry.numbered 0 others) =
        .error (.crossing (.raw 8 14 "earlier") (.raw 10 18 "later")) := by
  have failed : tightest (Entry.numbered 0 crossBelow) =
      .error (.crossing (.raw 8 14 "earlier") (.raw 10 18 "later")) := by cbv
  obtain ⟨outer, inner, first, same, -, -, alike⟩ := tightest_error (by decide) failed
  obtain ⟨upper, lower⟩ := HierarchyError.crossing.inj same
  exact ⟨⟨outer, inner, first, upper.symm, lower.symm⟩, alike (by decide)⟩

end Sweep

end Laminar
