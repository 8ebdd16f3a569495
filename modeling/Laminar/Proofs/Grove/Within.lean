import Mathlib.Data.List.Pairwise
import Laminar.Proofs.Span
import Laminar.Proofs.Grove

/-!
# Groves of spans

The labels of a grove have spans. `Within` says that these nest: the trees follow one another
between two ends, and what is below a label lies in the label's span in the same way. The labels
that hold one offset are then exactly those on one way down (`Within.path_append_holding`), an
enclosing label before those it encloses, no two labels cross, and the height is the largest
number of labels that hold one offset.
-/

namespace Laminar.Grove

variable {α : Type} (span : α → Span)

/-- The trees follow one another between `start` and `stop`, each holds an offset, and what is
below a label lies in its span in the same way. -/
def Within (start stop : UInt64) : Grove α → Prop
  | nil => True
  | node label below beside =>
    (start ≤ (span label).start ∧ (span label).start < (span label).stop ∧
        (span label).stop ≤ stop) ∧
      below.Within (span label).start (span label).stop ∧ beside.Within (span label).stop stop

/-- The labels that hold an offset, each before those below it. -/
def holding (offset : UInt64) (g : Grove α) : List α :=
  g.labels.filter fun label => (span label).Holds offset

variable {span}

/-- No trees hold no offset. -/
@[simp]
theorem holding_nil (offset : UInt64) : (nil : Grove α).holding span offset = [] :=
  rfl

/-- What holds an offset is the top of a tree, if it does, and what does so below and beside it. -/
theorem holding_node (offset : UInt64) (label : α) (below beside : Grove α) :
    (node label below beside).holding span offset =
      (if (span label).Holds offset then [label] else []) ++
        (below.holding span offset ++ beside.holding span offset) := by
  unfold holding
  rw [labels, List.filter_cons, List.filter_append]
  split <;> split <;> simp_all

/-- These are the labels whose spans hold the offset. -/
theorem mem_holding {offset : UInt64} {label : α} {g : Grove α} :
    label ∈ g.holding span offset ↔ label ∈ g.labels ∧ (span label).Holds offset := by
  simp [holding]

namespace Within

variable {start stop offset : UInt64} {g : Grove α}

/-- Every label lies between the ends and holds an offset. -/
theorem inside (within : g.Within span start stop) :
    ∀ label ∈ g.labels,
      start ≤ (span label).start ∧ (span label).start < (span label).stop ∧
        (span label).stop ≤ stop := by
  induction g generalizing start stop with
  | nil => simp [labels]
  | node label below beside inner later =>
    obtain ⟨here, below, beside⟩ := within
    intro other present
    simp only [labels, List.mem_cons, List.mem_append] at present
    rcases present with rfl | present | present
    · exact here
    · obtain ⟨first, proper, last⟩ := inner below other present
      exact ⟨UInt64.le_trans here.1 first, proper, UInt64.le_trans last here.2.2⟩
    · obtain ⟨first, proper, last⟩ := later beside other present
      have ordered := UInt64.le_trans here.1 (UInt64.le_of_lt here.2.1)
      exact ⟨UInt64.le_trans ordered first, proper, last⟩

/-- Each label encloses those just below it. -/
theorem families_encloses (within : g.Within span start stop) :
    g.Families fun outer children => ∀ inner ∈ children, (span outer).Encloses (span inner) := by
  induction g generalizing start stop with
  | nil => trivial
  | node label below beside inner later =>
    obtain ⟨-, lower, right⟩ := within
    refine ⟨fun child root => ?_, inner lower, later right⟩
    obtain ⟨first, -, last⟩ := lower.inside child ((roots_sublist_labels below).subset root)
    exact ⟨first, last⟩

/-- A change of labels that keeps their spans keeps them nested. -/
theorem map {β : Type} {f : β → α} {g : Grove β}
    (within : g.Within (fun label => span (f label)) start stop) :
    (g.map f).Within span start stop := by
  induction g generalizing start stop with
  | nil => trivial
  | node label below beside inner later =>
    obtain ⟨here, lower, right⟩ := within
    exact ⟨here, inner lower, later right⟩

/-- Of two trees the first ends before the second begins. -/
theorem pairwise_roots (within : g.Within span start stop) :
    g.roots.Pairwise fun a b => (span a).stop ≤ (span b).start := by
  induction g generalizing start stop with
  | nil => exact List.Pairwise.nil
  | node label below beside _ later =>
    have right := within.2.2
    refine List.Pairwise.cons (fun other root => ?_) (later right)
    exact (right.inside other ((roots_sublist_labels beside).subset root)).1

/-- No label holds an offset that is not between the ends. -/
theorem holding_eq_nil (within : g.Within span start stop)
    (outside : ¬ (start ≤ offset ∧ offset < stop)) : g.holding span offset = [] := by
  apply List.filter_eq_nil_iff.mpr
  intro label present held
  obtain ⟨first, _, last⟩ := within.inside label present
  have held := of_decide_eq_true held
  exact outside ⟨UInt64.le_trans first held.1, UInt64.lt_of_lt_of_le held.2 last⟩

/-- An offset that the first label does not hold is held only beside its tree. -/
theorem holding_beside {label : α} {below beside : Grove α}
    (within : (node label below beside).Within span start stop)
    (missed : ¬ (span label).Holds offset) :
    (node label below beside).holding span offset = beside.holding span offset := by
  have empty := within.2.1.holding_eq_nil missed
  simp [holding_node, missed, empty]

/-- In the first tree, the label and what is below it hold an offset. -/
theorem holding_below {label : α} {below beside : Grove α}
    (within : (node label below beside).Within span start stop)
    (held : (span label).Holds offset) :
    (node label below beside).holding span offset = label :: below.holding span offset := by
  have empty : beside.holding span offset = [] := by
    apply within.2.2.holding_eq_nil
    rintro ⟨after, _⟩
    exact UInt64.not_le.mpr held.2 after
  simp [holding_node, held, empty]

/-- The way down to a place that holds an offset, with the labels below the place that hold it,
has every label of the grove that holds it. -/
theorem path_append_holding (within : g.Within span start stop) {above : List α}
    {place : Place α} (placed : place ∈ g.placesBelow above)
    (held : (span place.label).Holds offset) :
    place.path ++ place.below.holding span offset = above.reverse ++ g.holding span offset := by
  induction g generalizing above start stop with
  | nil => simp [placesBelow] at placed
  | node label below beside inner later =>
    simp only [placesBelow, List.mem_cons, List.mem_append] at placed
    rcases placed with rfl | placed | placed
    · rw [within.holding_below held]
      simp [Place.path]
    · have bounds := within.2.1.inside _ (label_mem_of_mem_placesBelow placed)
      have outer : (span label).Holds offset := Span.Encloses.holds ⟨bounds.1, bounds.2.2⟩ held
      rw [inner within.2.1 placed, within.holding_below outer]
      simp
    · have bounds := within.2.2.inside _ (label_mem_of_mem_placesBelow placed)
      rw [later within.2.2 placed, within.holding_beside (held.not_holds bounds.1)]

/-- The way down to a place without children that holds an offset has every label that does. -/
theorem path_eq_holding (within : g.Within span start stop) {place : Place α}
    (placed : place ∈ g.places) (leaf : place.isLeaf = true)
    (held : (span place.label).Holds offset) : place.path = g.holding span offset := by
  have whole := within.path_append_holding placed held
  rw [(isEmpty_iff_eq_nil _).mp leaf] at whole
  simpa using whole

/-- Of two labels the first encloses the other or ends before it begins. -/
theorem pairwise (within : g.Within span start stop) :
    g.labels.Pairwise fun a b =>
      (span a).Encloses (span b) ∨ (span a).stop ≤ (span b).start := by
  induction g generalizing start stop with
  | nil => exact List.Pairwise.nil
  | node label below beside inner later =>
    have lower := within.2.1.inside
    have right := within.2.2.inside
    refine List.Pairwise.cons ?_ (List.pairwise_append.mpr ⟨inner within.2.1, later within.2.2, ?_⟩)
    · intro other present
      rcases List.mem_append.mp present with present | present
      · exact .inl ⟨(lower other present).1, (lower other present).2.2⟩
      · exact .inr (right other present).1
    · intro a left b other
      exact .inr (UInt64.le_trans (lower a left).2.2 (right b other).1)

/-- Of the labels that hold an offset, each encloses those after it. -/
theorem pairwise_encloses (within : g.Within span start stop) (offset : UInt64) :
    (g.holding span offset).Pairwise fun outer inner => (span outer).Encloses (span inner) := by
  refine List.Pairwise.imp_of_mem ?_ (within.pairwise.filter _)
  intro outer inner first second nested
  have first := (mem_holding.mp first).2
  have second := (mem_holding.mp second).2
  exact nested.resolve_right fun apart => second.not_holds apart first

/-- No two labels cross. -/
theorem not_crosses (within : g.Within span start stop) :
    ∀ a ∈ g.labels, ∀ b ∈ g.labels, ¬ (span a).Crosses (span b) := by
  have symmetric : Std.Symm fun a b => ¬ (span a).Crosses (span b) :=
    ⟨fun a b apart crossing => apart crossing.symm⟩
  have pairs : g.labels.Pairwise fun a b => ¬ (span a).Crosses (span b) := by
    refine within.pairwise.imp ?_
    rintro a b (nested | apart) crossing
    · exact crossing.2.1 nested
    · exact UInt64.not_lt.mpr apart crossing.1.2
  have itself : ∀ a ∈ g.labels, ¬ (span a).Crosses (span a) :=
    fun a _ crossing => crossing.2.1 (Span.Encloses.refl _)
  intro a left b right
  exact pairs.forall_of_forall itself left right

/-! ## Height -/

/-- No offset is held by more labels than there are on a longest way down. -/
theorem length_holding_le_height (within : g.Within span start stop) (offset : UInt64) :
    (g.holding span offset).length ≤ g.height := by
  induction g generalizing start stop with
  | nil => exact Nat.le_refl 0
  | node label below beside inner later =>
    by_cases held : (span label).Holds offset
    · rw [within.holding_below held, List.length_cons, height]
      have := inner within.2.1
      omega
    · rw [within.holding_beside held, height]
      have := later within.2.2
      omega

/-- Where some label begins, as many labels hold the offset as there are on a longest way down. -/
theorem exists_length_holding_eq_height (within : g.Within span start stop) (tree : g ≠ nil) :
    ∃ deepest ∈ g.labels, (g.holding span (span deepest).start).length = g.height := by
  induction g generalizing start stop with
  | nil => exact absurd rfl tree
  | node label below beside inner later =>
    by_cases deeper : beside.height ≤ 1 + below.height
    · have found : ∃ deepest ∈ label :: below.labels, (span label).Holds (span deepest).start ∧
          (below.holding span (span deepest).start).length = below.height := by
        by_cases leaf : below = nil
        · subst leaf
          exact ⟨label, List.mem_cons_self, ⟨UInt64.le_refl _, within.1.2.1⟩, rfl⟩
        · obtain ⟨deepest, present, reached⟩ := inner within.2.1 leaf
          obtain ⟨first, proper, last⟩ := within.2.1.inside deepest present
          have held : (span label).Holds (span deepest).start :=
            ⟨first, UInt64.lt_of_lt_of_le proper last⟩
          exact ⟨deepest, List.mem_cons_of_mem _ present, held, reached⟩
      obtain ⟨deepest, present, held, reached⟩ := found
      refine ⟨deepest, ?_, ?_⟩
      · exact List.mem_append_left beside.labels present
      · rw [within.holding_below held, List.length_cons, reached, height]
        omega
    · have others : beside ≠ nil := by
        rintro rfl
        exact deeper (Nat.zero_le _)
      obtain ⟨deepest, present, reached⟩ := later within.2.2 others
      obtain ⟨after, proper, _⟩ := within.2.2.inside deepest present
      have held : (span deepest).Holds (span deepest).start := ⟨UInt64.le_refl _, proper⟩
      refine ⟨deepest, ?_, ?_⟩
      · exact List.mem_cons_of_mem _ (List.mem_append_right _ present)
      · rw [within.holding_beside (held.not_holds after), reached, height]
        omega

end Within

end Laminar.Grove
