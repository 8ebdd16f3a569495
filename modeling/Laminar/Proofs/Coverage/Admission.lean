import Laminar.Coverage
import Laminar.Proofs.Nesting
import Laminar.Proofs.Outcome

/-!
# Admission

Admission that succeeds keeps the entries that hold an offset and no others, and those lie within
the bounds (`of_admission`). A coverage that is built therefore has a nesting of just these
entries within the span of the file (`of_build`).
-/

namespace Laminar

/-- The entries of the tags that hold an offset. -/
def Entry.proper (tags : List Tag) : List Entry :=
  (numbered 0 tags).filter fun entry => ¬ entry.span.Degenerate

namespace Entry

/-- These are the entries of emitted tags, each at its place, that hold an offset. -/
theorem mem_proper {tags : List Tag} {entry : Entry} :
    entry ∈ proper tags ↔ tags[entry.index]? = some entry.tag ∧ ¬ entry.span.Degenerate := by
  simp [proper, mem_numbered]

/-- The entries have the tags that hold an offset, in their order. -/
theorem map_tag_proper (tags : List Tag) :
    (proper tags).map tag = tags.filter fun tag => ¬ tag.span.Degenerate := by
  have kept := List.filter_map (f := tag) (p := fun tag => decide (¬ tag.span.Degenerate))
    (l := numbered 0 tags)
  rw [map_tag_numbered] at kept
  exact kept.symm

/-- What holds of all tags that hold an offset holds of all their entries. -/
theorem forall_mem_proper_iff (condition : Tag → Prop) (tags : List Tag) :
    (∀ entry ∈ proper tags, condition entry.tag) ↔
      ∀ tag ∈ tags, ¬ tag.span.Degenerate → condition tag := by
  rw [← List.forall_mem_map (f := tag), map_tag_proper]
  simp only [List.mem_filter, decide_eq_true_eq, and_imp]

/-- The entries hold an offset. -/
theorem start_lt_of_proper {tags : List Tag} :
    ∀ entry ∈ proper tags, entry.span.start < entry.span.stop :=
  fun _ present => (Span.not_degenerate_iff _).mp (mem_proper.mp present).2

/-- The entries have distinct places. -/
theorem pairwise_index_proper (tags : List Tag) :
    (proper tags).Pairwise fun a b => a.index ≠ b.index :=
  (pairwise_index_ne_numbered tags).filter _

end Entry

namespace Coverage

/-- If admission succeeds, the entries that hold an offset take part and no others, and they lie
within the bounds. -/
theorem of_admission {bounds : Span} {policy : DegeneratePolicy} {entries admitted : List Entry}
    (succeeded : (admission bounds policy entries).2 = .ok admitted) :
    admitted = (entries.filter fun entry => ¬ entry.span.Degenerate) ∧
      ∀ entry ∈ admitted, bounds.Encloses entry.span := by
  induction entries generalizing admitted with
  | nil =>
    obtain rfl := Except.ok.inj succeeded
    simp
  | cons entry rest later =>
    by_cases degenerate : entry.span.Degenerate
    · cases policy with
      | reject => simp [admission, degenerate] at succeeded
      | skip =>
        simp only [admission, degenerate, ↓reduceIte] at succeeded
        simpa [degenerate] using later succeeded
    · by_cases inside : bounds.Encloses entry.span
      · simp only [admission, degenerate, inside, ↓reduceIte, map_eq_ok_iff] at succeeded
        obtain ⟨others, outcome, rfl⟩ := succeeded
        obtain ⟨rfl, bounded⟩ := later outcome
        simp only [degenerate, not_false_eq_true, decide_true, List.filter_cons_of_pos, true_and]
        exact List.forall_mem_cons.mpr ⟨inside, bounded⟩
      · simp [admission, degenerate, inside] at succeeded

/-- An entry passes admission: it holds an offset and lies within the bounds, or it holds none and
such entries are left out. -/
def Passes (bounds : Span) (policy : DegeneratePolicy) (span : Span) : Prop :=
  if span.Degenerate then policy = .skip else bounds.Encloses span

/-- Whether an entry passes admission can be computed. -/
instance (bounds : Span) (policy : DegeneratePolicy) (span : Span) :
    Decidable (Passes bounds policy span) :=
  inferInstanceAs (Decidable (if span.Degenerate then policy = .skip else bounds.Encloses span))

/-- Admission succeeds if and only if every entry passes it. -/
theorem exists_admission_iff (bounds : Span) (policy : DegeneratePolicy) (entries : List Entry) :
    (∃ admitted, (admission bounds policy entries).2 = .ok admitted) ↔
      ∀ entry ∈ entries, Passes bounds policy entry.span := by
  induction entries with
  | nil => simp [admission]
  | cons entry rest later =>
    rw [List.forall_mem_cons, ← later]
    by_cases degenerate : entry.span.Degenerate
    · cases policy with
      | reject => simp [admission, Passes, degenerate]
      | skip => simp [admission, Passes, degenerate]
    · by_cases inside : bounds.Encloses entry.span
      · simp [admission, Passes, degenerate, inside, map_eq_ok_iff]
      · simp [admission, Passes, degenerate, inside]

section Build

variable {tags : List Tag} {span : Span} {options : Options}

/-- What is built is what admission lets through, nested and filled. -/
theorem snd_build (tags : List Tag) (span : Span) (options : Options) :
    (build tags span options).2 =
      (admission span options.degenerate (Entry.numbered 0 tags)).2.bind fun admitted =>
        (Nesting.ofEntries admitted).map (ofNesting span options.fillGaps) := by
  show (_ >>= fun admitted => Nesting.ofEntries admitted >>= _) = _
  refine congrArg _ (funext fun admitted => ?_)
  cases Nesting.ofEntries admitted <;> rfl

/-- A coverage is built after admission from the nesting of the entries that hold an offset. -/
theorem build_eq_ok_iff {coverage : Coverage} :
    (build tags span options).2 = .ok coverage ↔
      (∃ admitted, (admission span options.degenerate (Entry.numbered 0 tags)).2 = .ok admitted) ∧
        ∃ nesting, Nesting.ofEntries (Entry.proper tags) = .ok nesting ∧
          ofNesting span options.fillGaps nesting = coverage := by
  simp only [build, bind_eq_ok_iff]
  constructor
  · rintro ⟨admitted, admits, nesting, nests, made⟩
    obtain ⟨rfl, -⟩ := of_admission admits
    exact ⟨⟨_, admits⟩, nesting, nests, Except.ok.inj made⟩
  · rintro ⟨⟨admitted, admits⟩, nesting, nests, rfl⟩
    obtain ⟨rfl, -⟩ := of_admission admits
    exact ⟨_, admits, nesting, nests, rfl⟩

/-- The nesting of the admitted entries is one of those that hold an offset, all within the span of
the file. -/
theorem nests_of_admission {policy : DegeneratePolicy} {admitted : List Entry}
    (admits : (admission span policy (Entry.numbered 0 tags)).2 = .ok admitted)
    {nesting : Grove Entry} (nested : Nesting.ofEntries admitted = .ok nesting) :
    Nesting.Nests (Entry.proper tags) span.start span.stop nesting := by
  obtain ⟨rfl, bounded⟩ := of_admission admits
  exact Nesting.nests_of_ofEntries (Entry.pairwise_index_proper tags) Entry.start_lt_of_proper
    nested (fun entry present => (bounded entry present).1)
    (fun entry present => (bounded entry present).2)

/-- A coverage that is built is that of a nesting of the entries that hold an offset, all within
the span of the file. -/
theorem of_build {coverage : Coverage} (built : (build tags span options).2 = .ok coverage) :
    ∃ nesting, Nesting.Nests (Entry.proper tags) span.start span.stop nesting ∧
      coverage = ofNesting span options.fillGaps nesting := by
  simp only [build, bind_eq_ok_iff] at built
  obtain ⟨admitted, admits, nesting, nested, made⟩ := built
  exact ⟨nesting, nests_of_admission admits nested, (Except.ok.inj made).symm⟩

/-- A coverage can be built if and only if every tag passes admission and no two tags that hold an
offset cross. -/
theorem exists_build_iff :
    (∃ coverage, (build tags span options).2 = .ok coverage) ↔
      (∀ tag ∈ tags, Passes span options.degenerate tag.span) ∧
        ∀ a ∈ tags, ¬ a.span.Degenerate → ∀ b ∈ tags, ¬ b.span.Degenerate →
          ¬ a.span.Crosses b.span := by
  have admits := (exists_admission_iff span options.degenerate (Entry.numbered 0 tags)).trans
    (Entry.forall_mem_numbered_iff (fun tag => Passes span options.degenerate tag.span) 0 tags)
  have nests := Nesting.exists_ofEntries_iff (Entry.pairwise_index_proper tags)
    Entry.start_lt_of_proper
  have apart : (∀ a ∈ Entry.proper tags, ∀ b ∈ Entry.proper tags, ¬ a.span.Crosses b.span) ↔
      ∀ a ∈ tags, ¬ a.span.Degenerate → ∀ b ∈ tags, ¬ b.span.Degenerate →
        ¬ a.span.Crosses b.span := by
    rw [← Entry.forall_mem_proper_iff fun a =>
      ∀ b ∈ tags, ¬ b.span.Degenerate → ¬ a.span.Crosses b.span]
    exact forall₂_congr fun a _ =>
      Entry.forall_mem_proper_iff (fun b => ¬ a.span.Crosses b.span) tags
  rw [← admits, ← apart, ← nests]
  simp only [build_eq_ok_iff]
  constructor
  · rintro ⟨coverage, admits, nesting, nests, -⟩
    exact ⟨admits, nesting, nests⟩
  · rintro ⟨admits, nesting, nests⟩
    exact ⟨_, admits, nesting, nests, rfl⟩

end Build

end Coverage

end Laminar
