import Laminar.Proofs.Coverage.Admission

/-!
# What decides a build

Admission goes through the tags as they were emitted and ends at the first one that it refuses. That
tag alone decides the error, whatever other tags cross, and only the tags before it have left
warnings (`admission_append_refused`). Tags are compared with each other once all of them have
passed, so only then can a crossing be the error (`build_outcome`).
-/

namespace Laminar.Coverage

/-- A span that admission refuses: it holds no offset and such tags are not left out, or it holds
one and the bounds do not enclose it. -/
def Refused (bounds : Span) (policy : DegeneratePolicy) (span : Span) : Prop :=
  span.Degenerate ∧ policy = .reject ∨ ¬ span.Degenerate ∧ ¬ bounds.Encloses span

/-- Whether a span is refused can be computed. -/
instance (bounds : Span) (policy : DegeneratePolicy) (span : Span) :
    Decidable (Refused bounds policy span) :=
  inferInstanceAs (Decidable (_ ∨ _))

/-- What admission says of an entry that it refuses. -/
def refusal (bounds : Span) (entry : Entry) : HierarchyError :=
  if entry.span.Degenerate then .degenerate entry.index entry.span entry.tag.description
  else .outOfBounds entry.index entry.span bounds

/-- What an entry that passes admission gives cause to point out: that it is left out, or that it
stands for an integer of another width than its length. -/
def warning? (entry : Entry) : Option Warning :=
  if entry.span.Degenerate then some (.skipped entry)
  else
    match entry.tag.kind with
    | .integer width _ _ =>
      if width.toUInt64 = entry.span.length then none else some (.width entry width.toUInt64)
    | _ => none

/-- An entry that holds no offset is pointed out as left out. -/
theorem warning?_of_degenerate {entry : Entry} (degenerate : entry.span.Degenerate) :
    warning? entry = some (.skipped entry) :=
  if_pos degenerate

/-- An entry that takes part is warned about because of its width alone. -/
theorem warning?_of_proper {entry : Entry} (proper : ¬ entry.span.Degenerate) :
    warning? entry = widthWarning? entry := by
  unfold warning? widthWarning?
  rw [if_neg proper]
  cases entry.tag.kind <;> rfl

/-- An entry passes admission if and only if it is not refused. -/
theorem passes_iff_not_refused (bounds : Span) (policy : DegeneratePolicy) (span : Span) :
    Passes bounds policy span ↔ ¬ Refused bounds policy span := by
  unfold Passes Refused
  by_cases degenerate : span.Degenerate
  · cases policy with
    | reject => simp [degenerate]
    | skip => simp [degenerate]
  · simp [degenerate]

section Admission

variable {bounds : Span} {policy : DegeneratePolicy}

/-- An entry that passes adds its warning and, if it holds an offset, itself. -/
theorem admission_cons_of_passes {entry : Entry} (passes : Passes bounds policy entry.span)
    (rest : List Entry) :
    (admission bounds policy (entry :: rest)).1 =
        (warning? entry).toList ++ (admission bounds policy rest).1 ∧
      ∀ error, (admission bounds policy (entry :: rest)).2 = .error error ↔
        (admission bounds policy rest).2 = .error error := by
  unfold Passes at passes
  by_cases degenerate : entry.span.Degenerate
  · rw [if_pos degenerate] at passes
    subst passes
    simp [admission, warning?_of_degenerate, degenerate]
  · rw [if_neg degenerate] at passes
    have kept : ∀ outcome : Except HierarchyError (List Entry), ∀ error,
        outcome.map (entry :: ·) = .error error ↔ outcome = .error error := by
      intro outcome error
      cases outcome <;> simp [Except.map]
    simp [admission, warning?_of_proper, degenerate, passes, kept]

/-- Entries that pass leave their warnings, and the rest decides whether admission fails. -/
theorem admission_append_of_passes {passed : List Entry}
    (passes : ∀ entry ∈ passed, Passes bounds policy entry.span) (rest : List Entry) :
    (admission bounds policy (passed ++ rest)).1 =
        passed.filterMap warning? ++ (admission bounds policy rest).1 ∧
      ∀ error, (admission bounds policy (passed ++ rest)).2 = .error error ↔
        (admission bounds policy rest).2 = .error error := by
  induction passed with
  | nil => exact ⟨rfl, fun _ => Iff.rfl⟩
  | cons entry others later =>
    obtain ⟨first, following⟩ := List.forall_mem_cons.mp passes
    obtain ⟨warnings, errors⟩ := admission_cons_of_passes first (others ++ rest)
    obtain ⟨laterWarnings, laterErrors⟩ := later following
    constructor
    · rw [List.cons_append, warnings, laterWarnings, ← List.append_assoc]
      cases found : warning? entry with
      | none => simp [found]
      | some warning => simp [found]
    · intro error
      rw [List.cons_append, errors, laterErrors]

/-- Admission ends at the first entry that it refuses, with the warnings of those before it. -/
theorem admission_append_refused {passed rest : List Entry} {entry : Entry}
    (passes : ∀ other ∈ passed, Passes bounds policy other.span)
    (refused : Refused bounds policy entry.span) :
    admission bounds policy (passed ++ entry :: rest) =
      (passed.filterMap warning?, .error (refusal bounds entry)) := by
  have stops : admission bounds policy (entry :: rest) = ([], .error (refusal bounds entry)) := by
    rcases refused with ⟨degenerate, rfl⟩ | ⟨proper, outside⟩
    · simp [admission, refusal, degenerate]
    · simp [admission, refusal, proper, outside]
  obtain ⟨warnings, errors⟩ := admission_append_of_passes passes (entry :: rest)
  apply Prod.ext
  · rw [warnings, stops, List.append_nil]
  · apply (errors _).mpr
    rw [stops]

/-- Entries that all pass leave their warnings. -/
theorem warnings_of_passes {entries : List Entry}
    (passes : ∀ entry ∈ entries, Passes bounds policy entry.span) :
    (admission bounds policy entries).1 = entries.filterMap warning? := by
  have warnings := (admission_append_of_passes passes []).1
  rwa [List.append_nil, admission, List.append_nil] at warnings

end Admission

section Build

variable {tags : List Tag} {span : Span} {options : Options}

/-- An outcome of admission that is an error is that of the build. -/
theorem build_of_admission_eq_error {warnings : List Warning} {error : HierarchyError}
    (failed : admission span options.degenerate (Entry.numbered 0 tags) =
      (warnings, .error error)) :
    build tags span options = (warnings, .error error) := by
  unfold build
  rw [failed]
  rfl

/-- The tag at an index, with those emitted before it and after it. -/
theorem numbered_split {index : Nat} {tag : Tag} (emitted : tags[index]? = some tag) :
    Entry.numbered 0 tags =
      Entry.numbered 0 (tags.take index) ++
        ⟨index, tag⟩ :: Entry.numbered (index + 1) (tags.drop (index + 1)) := by
  obtain ⟨bound, found⟩ := List.getElem?_eq_some_iff.mp emitted
  have parts : tags = tags.take index ++ tag :: tags.drop (index + 1) := by
    rw [← found, List.getElem_cons_drop, List.take_append_drop]
  have length : (tags.take index).length = index := by
    rw [List.length_take]
    omega
  conv_lhs => rw [parts, Entry.numbered_append, length, Entry.numbered]
  simp only [Nat.zero_add]

/-- Once all tags have passed admission, a coverage is built or two tags cross. -/
theorem build_of_passes
    (passes : ∀ tag ∈ tags, Passes span options.degenerate tag.span) :
    (∃ coverage, (build tags span options).2 = .ok coverage) ∨
      ∃ first second, (build tags span options).2 = .error (.crossing first second) := by
  have entries := (Entry.forall_mem_numbered_iff
    (fun tag => Passes span options.degenerate tag.span) 0 tags).mpr passes
  obtain ⟨admitted, admits⟩ := (exists_admission_iff span options.degenerate _).mpr entries
  obtain ⟨rfl, -⟩ := of_admission admits
  have outcome : (build tags span options).2 =
      (Nesting.ofEntries (Entry.proper tags)).map (ofNesting span options.fillGaps) := by
    show (admission span options.degenerate (Entry.numbered 0 tags)).2 >>= _ = _
    rw [admits]
    rfl
  cases nested : Nesting.ofEntries (Entry.proper tags) with
  | ok nesting =>
    rw [nested] at outcome
    exact .inl ⟨_, outcome⟩
  | error error =>
    obtain ⟨outer, -, inner, -, rfl, -⟩ := Nesting.crosses_of_ofEntries
      (Entry.pairwise_index_proper tags) Entry.start_lt_of_proper nested
    rw [nested] at outcome
    exact .inr ⟨outer.tag, inner.tag, outcome⟩

end Build

/-- The first tag that admission refuses decides the error, and the tags before it have left all
warnings. If there is none, every tag has left its warnings, the build fails with a crossing if and
only if two tags that hold an offset cross, and it succeeds otherwise. -/
theorem build_outcome (tags : List Tag) (span : Span) (options : Options) :
    (∀ index tag, tags[index]? = some tag → Refused span options.degenerate tag.span →
      (∀ earlier ∈ tags.take index, ¬ Refused span options.degenerate earlier.span) →
        build tags span options =
          ((Entry.numbered 0 (tags.take index)).filterMap warning?,
            .error (refusal span ⟨index, tag⟩))) ∧
    ((∀ tag ∈ tags, ¬ Refused span options.degenerate tag.span) →
      (build tags span options).1 = (Entry.numbered 0 tags).filterMap warning? ∧
      ((∃ first second, (build tags span options).2 = .error (.crossing first second)) ↔
        ∃ a ∈ tags, ∃ b ∈ tags,
          ¬ a.span.Degenerate ∧ ¬ b.span.Degenerate ∧ a.span.Crosses b.span) ∧
      ((∃ coverage, (build tags span options).2 = .ok coverage) ↔
        ¬ ∃ a ∈ tags, ∃ b ∈ tags,
          ¬ a.span.Degenerate ∧ ¬ b.span.Degenerate ∧ a.span.Crosses b.span)) := by
  constructor
  · intro index tag emitted refused before
    simp only [← passes_iff_not_refused] at before
    have passes := (Entry.forall_mem_numbered_iff
      (fun tag => Passes span options.degenerate tag.span) 0 (tags.take index)).mpr before
    apply build_of_admission_eq_error
    rw [numbered_split emitted]
    exact admission_append_refused passes refused
  · intro accepted
    simp only [← passes_iff_not_refused] at accepted
    have passes := (Entry.forall_mem_numbered_iff
      (fun tag => Passes span options.degenerate tag.span) 0 tags).mpr accepted
    have succeeds : (∃ coverage, (build tags span options).2 = .ok coverage) ↔
        ¬ ∃ a ∈ tags, ∃ b ∈ tags,
          ¬ a.span.Degenerate ∧ ¬ b.span.Degenerate ∧ a.span.Crosses b.span := by
      rw [exists_build_iff]
      push Not
      constructor
      · rintro ⟨-, apart⟩ a left b right first second
        exact apart a left first b right second
      · intro apart
        exact ⟨accepted, fun a left first b right second => apart a left b right first second⟩
    have fails : (∃ first second, (build tags span options).2 = .error (.crossing first second)) ↔
        ¬ ∃ coverage, (build tags span options).2 = .ok coverage := by
      constructor
      · rintro ⟨first, second, failed⟩ ⟨coverage, built⟩
        rw [built] at failed
        contradiction
      · exact (build_of_passes accepted).resolve_left
    refine ⟨warnings_of_passes passes, ?_, succeeds⟩
    rw [fails, succeeds, not_not]

/-- Tags of which the first holds no byte, the second is shorter than its kind says and crosses the
third, and the last goes on after the sixteenth byte. -/
def longLast : List Tag :=
  [.raw 12 12 "empty", ⟨⟨0, 3⟩, .integer 4 false .little, "word"⟩, .raw 2 8 "across",
    .raw 4 40 "long"]

/-- The last tag decides the error although two tags before it cross, and without it these do. -/
theorem build_outcome_longLast :
    build longLast ⟨0, 16⟩ ⟨true, .skip⟩ =
        ([.skipped ⟨0, .raw 12 12 "empty"⟩,
            .width ⟨1, ⟨⟨0, 3⟩, .integer 4 false .little, "word"⟩⟩ 4],
          .error (.outOfBounds 3 ⟨4, 40⟩ ⟨0, 16⟩)) ∧
      ∃ first second,
        (build (longLast.take 3) ⟨0, 16⟩ ⟨true, .skip⟩).2 = .error (.crossing first second) := by
  obtain ⟨refuses, -⟩ := build_outcome longLast ⟨0, 16⟩ ⟨true, .skip⟩
  obtain ⟨-, accepts⟩ := build_outcome (longLast.take 3) ⟨0, 16⟩ ⟨true, .skip⟩
  constructor
  · exact refuses 3 (.raw 4 40 "long") rfl (by decide) (by decide)
  · have crossing := (accepts (by decide)).2.1
    exact crossing.mpr ⟨⟨⟨0, 3⟩, .integer 4 false .little, "word"⟩, by decide,
      .raw 2 8 "across", by decide, by decide, by decide, by decide⟩

end Coverage

end Laminar
