import Laminar.Proofs.Nesting.Renumbering

/-!
# Tags that are left out

Where tags that hold no offset are left out, admission goes on as if they were not there
(`admission_filter`). The others keep their places in the order of emission, so a build without
them from the start differs in these places alone: in the tree, in the error and in the warnings
that are not about a tag left out (`build_skip`).
-/

namespace Laminar

/-- The error about a tag that has another place in the order of emission. -/
def HierarchyError.renumbered (rename : Nat → Nat) : HierarchyError → HierarchyError
  | .degenerate index span description => .degenerate (rename index) span description
  | .outOfBounds index span bounds => .outOfBounds (rename index) span bounds
  | .crossing first second => .crossing first second
  | .malformedLine line content fault => .malformedLine line content fault

namespace Coverage

/-- The coverage of tags that have other places in the order of emission. -/
def renumbered (rename : Nat → Nat) (coverage : Coverage) : Coverage :=
  ⟨coverage.span, coverage.segments.map (Segment.renumbered rename)⟩

/-- A warning that a tag is left out. -/
def Warning.isSkipped : Warning → Bool
  | .skipped _ => true
  | .width _ _ => false

/-- The warning about a tag that has another place in the order of emission. -/
def Warning.renumbered (rename : Nat → Nat) : Warning → Warning
  | .skipped entry => .skipped (entry.renumbered rename)
  | .width entry expected => .width (entry.renumbered rename) expected

/-! ## Admission -/

/-- No warning about a width is one that a tag is left out. -/
theorem filter_widthWarning? (entry : Entry) :
    (widthWarning? entry).toList.filter (fun warning => ¬ warning.isSkipped) =
      (widthWarning? entry).toList := by
  refine List.filter_eq_self.mpr fun warning present => ?_
  obtain ⟨width, -, found⟩ := Option.bind_eq_some_iff.mp (Option.mem_toList.mp present)
  split at found
  · contradiction
  · rw [← Option.some.inj found]
    rfl

/-- To leave entries out is to admit the others, but for the warnings about it. -/
theorem admission_filter (bounds : Span) (entries : List Entry) :
    admission bounds .reject (entries.filter fun entry => ¬ entry.span.Degenerate) =
      ((admission bounds .skip entries).1.filter fun warning => ¬ warning.isSkipped,
        (admission bounds .skip entries).2) := by
  induction entries with
  | nil => rfl
  | cons entry rest later =>
    by_cases degenerate : entry.span.Degenerate
    · rw [List.filter_cons_of_neg (by simpa using degenerate), later, admission,
        if_pos degenerate, List.filter_cons_of_neg (by simp [Warning.isSkipped])]
    · rw [List.filter_cons_of_pos (by simpa using degenerate), admission, if_neg degenerate,
        admission, if_neg degenerate, later]
      split
      · rw [List.filter_append, filter_widthWarning?]
      · rfl

/-- A warning about a width moves with its entry. -/
theorem widthWarning?_renumbered (rename : Nat → Nat) (entry : Entry) :
    widthWarning? (entry.renumbered rename) =
      (widthWarning? entry).map (Warning.renumbered rename) := by
  unfold widthWarning?
  show entry.tag.kind.width?.bind _ = (entry.tag.kind.width?.bind _).map _
  cases entry.tag.kind.width? with
  | none => rfl
  | some width =>
    show ite (width = entry.span.length) _ _ = Option.map _ (ite (width = entry.span.length) _ _)
    split <;> rfl

/-- Admission names entries in errors and warnings and does not look at their places otherwise. -/
theorem admission_renumbered (bounds : Span) (policy : DegeneratePolicy) (rename : Nat → Nat)
    (entries : List Entry) :
    admission bounds policy (entries.map (Entry.renumbered rename)) =
      ((admission bounds policy entries).1.map (Warning.renumbered rename),
        ((admission bounds policy entries).2.map (List.map (Entry.renumbered rename))).mapError
          (HierarchyError.renumbered rename)) := by
  induction entries with
  | nil => rfl
  | cons entry rest later =>
    simp only [List.map_cons, admission, Entry.span_renumbered, later]
    split
    · cases policy <;> rfl
    · split
      · rw [widthWarning?_renumbered, List.map_append, Option.toList_map]
        cases (admission bounds policy rest).2 <;> rfl
      · rfl

/-! ## Builds -/

/-- A crossing is the same at all places. -/
theorem mapError_ofEntries (rename : Nat → Nat) (entries : List Entry) :
    (Nesting.ofEntries entries).mapError (HierarchyError.renumbered rename) =
      Nesting.ofEntries entries := by
  unfold Nesting.ofEntries
  simp only
  split <;> rfl

/-- Entries at new places make the same coverage but for these places. -/
theorem ofNesting_renumbered (span : Span) (fillGaps : Bool) (rename : Nat → Nat)
    (nesting : Grove Entry) :
    ofNesting span fillGaps (nesting.map (Entry.renumbered rename)) =
      (ofNesting span fillGaps nesting).renumbered rename := by
  have seen := map_tree_ofNesting (Entry.renumbered rename) (Segment.renumbered rename) id
    (Entry.span_renumbered rename) (fun _ => rfl) (fun _ => rfl) (fun _ => rfl) span fillGaps
    nesting
  rw [Grove.map_id] at seen
  exact congrArg (Coverage.mk span) (Grove.node.inj seen).2.1.symm

/-- The coverage of entries at new places that keep their order. -/
theorem nested_renumbered {rename : Nat → Nat} {entries : List Entry}
    (keeps : Entry.KeepsOrder rename entries) (span : Span) (fillGaps : Bool) :
    (Nesting.ofEntries (entries.map (Entry.renumbered rename))).map (ofNesting span fillGaps) =
      (((Nesting.ofEntries entries).map (ofNesting span fillGaps)).map
        (Coverage.renumbered rename)).mapError (HierarchyError.renumbered rename) := by
  rw [Nesting.ofEntries_renumbered keeps]
  cases nested : Nesting.ofEntries entries with
  | ok nesting => exact congrArg Except.ok (ofNesting_renumbered span fillGaps rename nesting)
  | error error =>
    have same := mapError_ofEntries rename entries
    rw [nested] at same
    exact congrArg Except.error (Except.error.inj same).symm

/-- To leave out the tags that hold no offset is to refuse none and to build from the others, in the
same order. The tag at a position among these is emitted at its place among all tags, and the
positions come in the order of the places. With the places for the positions, the tree and the error
are the same, and so are the warnings, apart from those about tags left out. -/
theorem build_skip (tags : List Tag) (span : Span) (fillGaps : Bool) :
    let kept := tags.filter fun tag => ¬ tag.span.Degenerate
    let place := Entry.properIndex tags
    (∀ position tag, kept[position]? = some tag → tags[place position]? = some tag) ∧
      (∀ a b, a < b → b < kept.length → place a < place b) ∧
      (build tags span ⟨fillGaps, .skip⟩).2 =
        ((build kept span ⟨fillGaps, .reject⟩).2.map (Coverage.renumbered place)).mapError
          (HierarchyError.renumbered place) ∧
      (build tags span ⟨fillGaps, .skip⟩).1.filter (fun warning => ¬ warning.isSkipped) =
        (build kept span ⟨fillGaps, .reject⟩).1.map (Warning.renumbered place) := by
  intro kept place
  have admitted : admission span .reject (Entry.proper tags) =
      ((admission span .reject (Entry.numbered 0 kept)).1.map (Warning.renumbered place),
        ((admission span .reject (Entry.numbered 0 kept)).2.map
          (List.map (Entry.renumbered place))).mapError (HierarchyError.renumbered place)) := by
    rw [← Entry.map_renumbered_numbered]
    exact admission_renumbered span .reject place _
  rw [Entry.proper, admission_filter] at admitted
  obtain ⟨warnings, outcome⟩ := Prod.mk.inj admitted
  refine ⟨fun position tag => Entry.getElem?_properIndex, fun a b => Entry.properIndex_lt, ?_,
    warnings⟩
  rw [snd_build, snd_build]
  show (admission span .skip _).2.bind _ = (((admission span .reject _).2.bind _).map _).mapError _
  rw [outcome]
  cases admits : (admission span .reject (Entry.numbered 0 kept)).2 with
  | error error => rfl
  | ok entries =>
    have keeps : Entry.KeepsOrder place entries := by
      have among : ∀ entry ∈ entries, entry ∈ Entry.numbered 0 kept := by
        rw [(of_admission admits).1]
        exact fun entry => List.mem_of_mem_filter
      exact fun a left b right =>
        Entry.keepsOrder_properIndex tags a (among a left) b (among b right)
    exact nested_renumbered keeps span fillGaps

/-- Two tags that hold an offset, each emitted after one that holds none. -/
def emptyBefore : List Tag :=
  [.raw 12 12 "empty", .raw 4 6 "inner", .raw 9 2 "inverted", .raw 2 40 "outer"]

/-- The same tag of `emptyBefore` is out of bounds with the empty ones left out as without them,
each time named by its place among all that are given. -/
theorem build_skip_emptyBefore :
    let kept : List Tag := [.raw 4 6 "inner", .raw 2 40 "outer"]
    emptyBefore.filter (fun tag => ¬ tag.span.Degenerate) = kept ∧
      emptyBefore[Entry.properIndex emptyBefore 1]? = some (.raw 2 40 "outer") ∧
      (build kept ⟨0, 16⟩ ⟨true, .reject⟩).2 = .error (.outOfBounds 1 ⟨2, 40⟩ ⟨0, 16⟩) ∧
      (build emptyBefore ⟨0, 16⟩ ⟨true, .skip⟩).2 = .error (.outOfBounds 3 ⟨2, 40⟩ ⟨0, 16⟩) := by
  intro kept
  have filtered : emptyBefore.filter (fun tag => ¬ tag.span.Degenerate) = kept := by decide
  have alone : (build kept ⟨0, 16⟩ ⟨true, .reject⟩).2 =
      .error (.outOfBounds 1 ⟨2, 40⟩ ⟨0, 16⟩) := by cbv
  obtain ⟨emitted, -, outcome, -⟩ := build_skip emptyBefore ⟨0, 16⟩ true
  rw [filtered] at emitted
  rw [filtered, alone] at outcome
  exact ⟨filtered, emitted 1 _ rfl, alone, outcome⟩

end Coverage

end Laminar
