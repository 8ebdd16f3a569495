import Laminar.Command.Run
import Laminar.Proofs.Coverage.Widening
import Laminar.Proofs.Tag.Deletion

/-!
# Spans of files that are not given

Where neither a size nor a file is given, a file ends with the last of its tags, and tags that are
left out of the coverage count as well. So the coverage is that of the file without their lines,
with the end moved (`coverageOf_skip`), and the lines can be taken out without a difference only if
none of these tags reaches beyond all others.
-/

namespace Laminar

namespace Coverage

/-- Two coverages are the same, but for the places of the tags in the order of emission. -/
def Alike (first second : Coverage) : Prop :=
  first.renumbered (fun _ => 0) = second.renumbered fun _ => 0

/-- Places that are changed twice may be changed at once. -/
theorem renumbered_renumbered (rename other : Nat → Nat) (coverage : Coverage) :
    (coverage.renumbered rename).renumbered other =
      coverage.renumbered fun index => other (rename index) := by
  unfold renumbered
  rw [Grove.map_map]
  refine congrArg (fun f => Coverage.mk coverage.span (coverage.segments.map f)) ?_
  funext segment
  obtain ⟨span, kind, description, origin⟩ := segment
  cases origin <;> rfl

/-- New places do not count. -/
theorem alike_renumbered (rename : Nat → Nat) (coverage : Coverage) :
    Alike (coverage.renumbered rename) coverage :=
  renumbered_renumbered rename (fun _ => 0) coverage

/-- New places are not drawn. -/
theorem drawing_renumbered (rename : Nat → Nat) (coverage : Coverage) (fragmentLabel : String) :
    (coverage.renumbered rename).drawing fragmentLabel = coverage.drawing fragmentLabel ∧
      (coverage.renumbered rename).leafLines fragmentLabel = coverage.leafLines fragmentLabel := by
  have same : coverage.tree.map (Segment.renumbered rename) = (coverage.renumbered rename).tree :=
    rfl
  obtain ⟨drawn, listed⟩ := drawing_of_renumbered same fragmentLabel
  exact ⟨drawn.symm, listed.symm⟩

/-- Coverages that are alike are drawn alike. -/
theorem drawing_of_alike {first second : Coverage} (alike : Alike first second)
    (fragmentLabel : String) :
    first.drawing fragmentLabel = second.drawing fragmentLabel ∧
      first.leafLines fragmentLabel = second.leafLines fragmentLabel := by
  have left := drawing_renumbered (fun _ => 0) first fragmentLabel
  have right := drawing_renumbered (fun _ => 0) second fragmentLabel
  rw [alike] at left
  exact ⟨left.1.symm.trans right.1, left.2.symm.trans right.2⟩

end Coverage

namespace Command

open Coverage (Alike Passes build)

/-! ## The end of a file -/

/-- The tags reach no further than a bound if none of them does. -/
theorem lastStop_le_iff (tags : List Tag) (bound : UInt64) :
    lastStop tags ≤ bound ↔ ∀ tag ∈ tags, tag.span.stop ≤ bound :=
  (foldl_max_le_iff (fun tag : Tag => tag.span.stop) tags 0 bound).trans
    (and_iff_right UInt64.zero_le)

/-- A file that ends no earlier than its tags encloses each of them. -/
theorem encloses_of_lastStop_le {tags : List Tag} {stop : UInt64} (reaches : lastStop tags ≤ stop) :
    ∀ tag ∈ tags, (⟨0, stop⟩ : Span).Encloses tag.span :=
  fun tag present => ⟨UInt64.zero_le, (lastStop_le_iff tags stop).mp reaches tag present⟩

/-- Tags pass admission to a file that ends no earlier than they do, if those that hold no offset
are left out. -/
theorem passes_of_lastStop_le {tags : List Tag} {stop : UInt64} (reaches : lastStop tags ≤ stop) :
    ∀ tag ∈ tags, Passes ⟨0, stop⟩ .skip tag.span := by
  intro tag present
  unfold Passes
  split
  · rfl
  · exact encloses_of_lastStop_le reaches tag present

/-- A tag more does not move the end of a file back. -/
theorem lastStop_filter_le (tags : List Tag) (keep : Tag → Bool) :
    lastStop (tags.filter keep) ≤ lastStop tags := by
  have reached := (lastStop_le_iff tags (lastStop tags)).mp (UInt64.le_refl _)
  apply (lastStop_le_iff _ _).mpr
  intro tag present
  exact reached tag (List.mem_of_mem_filter present)

/-- Where tags that hold no offset are left out, the coverage is that of the others alone, widened
to the last of all. -/
theorem build_widened (tags : List Tag) (fillGaps : Bool) :
    let kept := tags.filter fun tag => ¬ tag.span.Degenerate
    (build tags ⟨0, lastStop tags⟩ ⟨fillGaps, .skip⟩).2 =
      (build kept ⟨0, lastStop kept⟩ ⟨fillGaps, .skip⟩).2.map fun coverage =>
        (coverage.widened fillGaps (lastStop tags)).renumbered (Entry.properIndex tags) := by
  intro kept
  have alone : Entry.proper kept = Entry.numbered 0 kept := by
    refine List.filter_eq_self.mpr fun entry emitted => ?_
    exact (List.mem_filter.mp (Entry.tag_mem_of_mem_numbered emitted)).2
  have renumbered := Coverage.nested_renumbered (Entry.keepsOrder_properIndex tags)
    ⟨0, lastStop tags⟩ fillGaps
  rw [Entry.map_renumbered_numbered] at renumbered
  rw [Coverage.snd_build_of_passes (passes_of_lastStop_le (UInt64.le_refl _)),
    Coverage.snd_build_of_passes (passes_of_lastStop_le (UInt64.le_refl _)), alone]
  refine renumbered.trans ?_
  cases nested : Nesting.ofEntries (Entry.numbered 0 kept) with
  | error error =>
    have same := Coverage.mapError_ofEntries (Entry.properIndex tags) (Entry.numbered 0 kept)
    rw [nested] at same
    exact congrArg Except.error (Except.error.inj same)
  | ok nesting =>
    have reached : Nesting.reach 0 nesting = lastStop kept := Nesting.reach_ofEntries nested
    have wider := Coverage.ofNesting_widened 0 (lastStop tags) fillGaps nesting
    rw [reached] at wider
    exact congrArg Except.ok (congrArg (Coverage.renumbered (Entry.properIndex tags)) wider)

/-! ## Lines of tags that are left out -/

/-- Two outcomes are failures or coverages that are the same but for the places of the tags. -/
def Agree : Except Failure Coverage → Except Failure Coverage → Prop
  | .ok first, .ok second => Alike first second
  | .error _, .error _ => True
  | _, _ => False

/-- A file of which neither size nor bytes are given ends with the last of its tags. -/
theorem coverageOf_eq {host : Host} {path text : String} {tags : List Tag}
    (read : host.read path = .ok text) (parsed : Tag.ofText text = .ok tags)
    (settings : Settings) :
    coverageOf host settings {} path =
      (build tags ⟨0, lastStop tags⟩ settings.coverageOptions).2.mapError (.input path) := by
  have found : readTags host path = .ok tags := by
    rw [readTags, read]
    show (Tag.ofText text).mapError _ = _
    rw [parsed]
    rfl
  rw [coverageOf, found]
  rfl

section Deleted

variable {host cut : Host} {settings : Settings} {path text : String} {tags : List Tag}
  (skips : settings.degenerate = .skip) (read : host.read path = .ok text)
  (parsed : Tag.ofText text = .ok tags)
  (deleted : cut.read path = .ok (Tag.keepTags (fun tag => ¬ tag.span.Degenerate) text))

include skips parsed deleted

/-- Without the lines of the tags that are left out, the coverage is that of the others. -/
theorem coverageOf_deleted :
    let kept := tags.filter fun tag => ¬ tag.span.Degenerate
    coverageOf cut settings {} path =
      (build kept ⟨0, lastStop kept⟩ ⟨settings.fillGaps, .skip⟩).2.mapError (.input path) := by
  intro kept
  rw [coverageOf_eq deleted (Tag.ofText_keepTags _ parsed), Settings.coverageOptions, skips]

/-- Without these lines there is a coverage if and only if no two of the other tags cross. -/
theorem exists_coverageOf_deleted_iff :
    let kept := tags.filter fun tag => ¬ tag.span.Degenerate
    (∃ coverage, coverageOf cut settings {} path = .ok coverage) ↔
      ∀ a ∈ kept, ∀ b ∈ kept, ¬ a.span.Crosses b.span := by
  intro kept
  have proper : ∀ tag ∈ kept, ¬ tag.span.Degenerate :=
    fun tag present => of_decide_eq_true (List.mem_filter.mp present).2
  have passes : ∀ tag ∈ kept, Passes ⟨0, lastStop kept⟩ .skip tag.span :=
    passes_of_lastStop_le (UInt64.le_refl _)
  simp only [coverageOf_deleted skips parsed deleted, mapError_eq_ok_iff]
  refine Coverage.exists_build_iff.trans ⟨fun built a left b right => ?_, fun apart => ?_⟩
  · exact built.2 a left (proper a left) b right (proper b right)
  · exact ⟨passes, fun a left _ b right _ => apart a left b right⟩

/-- Without these lines the file ends with the last of the other tags. -/
theorem span_of_coverageOf_deleted {coverage : Coverage}
    (covered : coverageOf cut settings {} path = .ok coverage) :
    coverage.span = ⟨0, lastStop (tags.filter fun tag => ¬ tag.span.Degenerate)⟩ := by
  rw [coverageOf_deleted skips parsed deleted, mapError_eq_ok_iff] at covered
  obtain ⟨nesting, -, rfl⟩ := Coverage.of_build covered
  rfl

include read

/-- With these lines the coverage is widened to the last of all tags. -/
theorem coverageOf_eq_widened :
    coverageOf host settings {} path =
      (coverageOf cut settings {} path).map fun coverage =>
        (coverage.widened settings.fillGaps (lastStop tags)).renumbered
          (Entry.properIndex tags) := by
  rw [coverageOf_eq read parsed, Settings.coverageOptions, skips, build_widened,
    coverageOf_deleted skips parsed deleted]
  cases (build (tags.filter fun tag => ¬ tag.span.Degenerate) _ ⟨settings.fillGaps, .skip⟩).2 with
  | error error => rfl
  | ok coverage => rfl

/-- The lines make no difference if two of the other tags cross, since there is no coverage then, or
if no tag reaches beyond the others. -/
theorem agree_iff :
    let kept := tags.filter fun tag => ¬ tag.span.Degenerate
    Agree (coverageOf host settings {} path) (coverageOf cut settings {} path) ↔
      (∃ a ∈ kept, ∃ b ∈ kept, a.span.Crosses b.span) ∨
        ∀ tag ∈ tags, tag.span.stop ≤ lastStop kept := by
  intro kept
  have nested := exists_coverageOf_deleted_iff skips parsed deleted
  have spans := @span_of_coverageOf_deleted _ _ _ _ _ skips parsed deleted
  rw [coverageOf_eq_widened skips read parsed deleted, ← lastStop_le_iff]
  cases covered : coverageOf cut settings {} path with
  | error failure =>
    rw [covered] at nested
    have crossing : ∃ a ∈ kept, ∃ b ∈ kept, a.span.Crosses b.span := by
      by_contra none
      obtain ⟨coverage, found⟩ := nested.mpr fun a left b right crossing =>
        none ⟨a, left, b, right, crossing⟩
      contradiction
    exact iff_of_true trivial (.inl crossing)
  | ok coverage =>
    have apart := nested.mp ⟨coverage, covered⟩
    have span := spans covered
    have stop : coverage.span.stop = lastStop kept := congrArg Span.stop span
    constructor
    · intro alike
      have same : lastStop tags = coverage.span.stop :=
        congrArg (fun coverage : Coverage => coverage.span.stop) alike
      exact .inr (UInt64.le_of_eq (same.trans stop))
    · rintro (⟨a, left, b, right, crossing⟩ | reaches)
      · exact absurd crossing (apart a left b right)
      · have same : lastStop tags = coverage.span.stop :=
          (UInt64.le_antisymm reaches (lastStop_filter_le tags _)).trans stop.symm
        show Alike ((coverage.widened settings.fillGaps (lastStop tags)).renumbered _) coverage
        rw [same, Coverage.widened_self]
        exact Coverage.alike_renumbered _ coverage

/-- Where the lines make no difference to the coverage they make none to what is printed. -/
theorem printed_of_agree
    (agree : Agree (coverageOf host settings {} path) (coverageOf cut settings {} path)) :
    tree host settings {} [path] = tree cut settings {} [path] ∧
      leaves host settings {} path = leaves cut settings {} path := by
  have widened := coverageOf_eq_widened skips read parsed deleted
  unfold tree leaves coverages
  rw [List.map_singleton, List.map_singleton]
  cases covered : coverageOf cut settings {} path with
  | error failure =>
    rw [covered] at widened
    have failed : coverageOf host settings {} path = .error failure := widened
    rw [failed]
    exact ⟨rfl, rfl⟩
  | ok coverage =>
    rw [covered] at widened agree
    generalize coverageOf host settings {} path = whole at widened agree
    subst widened
    obtain ⟨drawn, listed⟩ := Coverage.drawing_of_alike agree settings.fragmentLabel
    simp only [Except.map, drawAll, treeLines, drawn, listed]
    exact ⟨trivial, trivial⟩

end Deleted

/-- Lines of tags that are left out and the other lines: with the former, the coverage is that of
the others, widened to the last of all tags. They make no difference if two of the other tags cross,
since there is no coverage then, or if none of them reaches beyond the others, and in no other case.
Where they make no difference to the coverage they make none to what is printed. -/
theorem coverageOf_skip {host cut : Host} {settings : Settings} {path text : String}
    {tags : List Tag} (skips : settings.degenerate = .skip) (read : host.read path = .ok text)
    (parsed : Tag.ofText text = .ok tags)
    (deleted : cut.read path = .ok (Tag.keepTags (fun tag => ¬ tag.span.Degenerate) text)) :
    let kept := tags.filter fun tag => ¬ tag.span.Degenerate
    coverageOf host settings {} path =
        ((coverageOf cut settings {} path).map fun coverage =>
          (coverage.widened settings.fillGaps (lastStop tags)).renumbered
            (Entry.properIndex tags)) ∧
      (∀ coverage, coverageOf cut settings {} path = .ok coverage →
        coverage.span = ⟨0, lastStop kept⟩) ∧
      (Agree (coverageOf host settings {} path) (coverageOf cut settings {} path) ↔
        (∃ a ∈ kept, ∃ b ∈ kept, a.span.Crosses b.span) ∨
          ∀ tag ∈ tags, tag.span.stop ≤ lastStop kept) ∧
      (Agree (coverageOf host settings {} path) (coverageOf cut settings {} path) →
        tree host settings {} [path] = tree cut settings {} [path] ∧
          leaves host settings {} path = leaves cut settings {} path) :=
  ⟨coverageOf_eq_widened skips read parsed deleted,
    fun _ => span_of_coverageOf_deleted skips parsed deleted, agree_iff skips read parsed deleted,
    printed_of_agree skips read parsed deleted⟩

/-- A machine on which every file has one text. -/
def onlyText (text : String) : Host where
  read _ := .ok text
  length _ := .error .missing
  present _ := true
  environment := []
  directory := "/"
  accountHome := "/"

/-- The settings under which tags that hold no offset are left out. -/
def skipping : Settings where
  degenerate := .skip

/-- An inverted tag reaches less far than the other one. -/
theorem coverageOf_skip_inverted :
    let text := "[0x9,0x2) raw inverted\n[0x0,0x4) raw a\n"
    let cut := "[0x0,0x4) raw a\n"
    Tag.keepTags (fun tag => ¬ tag.span.Degenerate) text = cut ∧
      Agree (coverageOf (onlyText text) skipping {} "t")
        (coverageOf (onlyText cut) skipping {} "t") ∧
      tree (onlyText text) skipping {} ["t"] = tree (onlyText cut) skipping {} ["t"] ∧
      leaves (onlyText text) skipping {} "t" = leaves (onlyText cut) skipping {} "t" := by
  intro text cut
  have deleted : Tag.keepTags (fun tag => ¬ tag.span.Degenerate) text = cut := by decide
  have parsed : Tag.ofText text = .ok [.raw 9 2 "inverted", .raw 0 4 "a"] := by decide
  have emptied : (onlyText cut).read "t" =
      .ok (Tag.keepTags (fun tag => ¬ tag.span.Degenerate) text) :=
    congrArg Except.ok deleted.symm
  have read : (onlyText text).read "t" = .ok text := rfl
  have skips : skipping.degenerate = .skip := rfl
  obtain ⟨-, -, difference, printed⟩ := coverageOf_skip skips read parsed emptied
  have agree := difference.mpr (.inr (by decide))
  exact ⟨deleted, agree, printed agree⟩

/-- An empty tag that reaches further than the other one ends the file, so its line makes a
difference. -/
theorem not_agree_emptyLast :
    let text := "[0x0,0x4) raw a\n[0x8,0x8) raw empty\n"
    let cut := "[0x0,0x4) raw a\n"
    Tag.keepTags (fun tag => ¬ tag.span.Degenerate) text = cut ∧
      (coverageOf (onlyText text) skipping {} "t").map Coverage.span = .ok ⟨0, 8⟩ ∧
      (coverageOf (onlyText cut) skipping {} "t").map Coverage.span = .ok ⟨0, 4⟩ ∧
      ¬ Agree (coverageOf (onlyText text) skipping {} "t")
        (coverageOf (onlyText cut) skipping {} "t") := by
  intro text cut
  have deleted : Tag.keepTags (fun tag => ¬ tag.span.Degenerate) text = cut := by decide
  have parsed : Tag.ofText text = .ok [.raw 0 4 "a", .raw 8 8 "empty"] := by decide
  have emptied : (onlyText cut).read "t" =
      .ok (Tag.keepTags (fun tag => ¬ tag.span.Degenerate) text) :=
    congrArg Except.ok deleted.symm
  have read : (onlyText text).read "t" = .ok text := rfl
  have skips : skipping.degenerate = .skip := rfl
  have covered : (coverageOf (onlyText text) skipping {} "t").map Coverage.span = .ok ⟨0, 8⟩ := by
    rw [coverageOf_eq read parsed]
    cbv
  have alone : (coverageOf (onlyText cut) skipping {} "t").map Coverage.span = .ok ⟨0, 4⟩ := by
    rw [coverageOf_eq emptied (Tag.ofText_keepTags _ parsed)]
    cbv
  refine ⟨deleted, covered, alone, fun agree => ?_⟩
  have reaches := (agree_iff skips read parsed emptied).mp agree
  revert reaches
  decide

end Command

end Laminar
