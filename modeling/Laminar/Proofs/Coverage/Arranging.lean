import Laminar.Coverage.Linked
import Laminar.Proofs.NodeStore.Trees

/-!
# Children put in order

One step of the arrangement changes the list of children of one node and adds nodes for gaps, and it
changes nothing else (`node?_arrangeBelow`). So what the steps before it have arranged stays so, and
after the last step every inner node has its children in order (`progress_arrange`).
-/

namespace Laminar.LinkedCoverage

open Coverage (Segment)
open NodeStore (label? parent?)

/-- The span of a node is that of its label. -/
theorem span?_eq (store : NodeStore Segment) (slot : Slot) :
    span? store slot = (store.label? slot).map Segment.span := by
  rw [span?, label?, Option.map_map]
  rfl

/-- Slots with the same labels are in the same order. -/
theorem beginsFirst_congr {store other : NodeStore Segment} {a b : Slot}
    (left : store.label? a = other.label? a) (right : store.label? b = other.label? b) :
    beginsFirst store a b = beginsFirst other a b := by
  rw [beginsFirst, beginsFirst, span?_eq, span?_eq, span?_eq, span?_eq, left, right]

/-- A slot comes no later than another if the node in it, where there is one, begins no later than
one in the other. -/
theorem beginsFirst_iff (store : NodeStore Segment) (a b : Slot) :
    beginsFirst store a b = true ↔
      ∀ first, span? store a = some first →
        ∃ second, span? store b = some second ∧ first.start ≤ second.start := by
  unfold beginsFirst
  cases span? store a <;> cases span? store b <;> simp

/-- Sorted slots come each no later than those after it. -/
theorem pairwise_beginsFirst_mergeSort (store : NodeStore Segment) (slots : List Slot) :
    (slots.mergeSort (beginsFirst store)).Pairwise fun a b => beginsFirst store a b = true := by
  apply List.pairwise_mergeSort
  · intro a b c first second
    rw [beginsFirst_iff] at *
    intro x left
    obtain ⟨y, middle, below⟩ := first x left
    obtain ⟨z, right, above⟩ := second y middle
    exact ⟨z, right, UInt64.le_trans below above⟩
  · intro a b
    unfold beginsFirst
    cases span? store a <;> cases span? store b <;> simp
    exact UInt64.le_total _ _

/-! ## One step -/

/-- A step adds a node for each gap. -/
theorem size_arrangeBelow (fillGaps : Bool) (coverage : LinkedCoverage) (slot : Slot)
    (span : Span) :
    (arrangeBelow fillGaps coverage slot span).store.size =
      coverage.store.size + (gapsBelow fillGaps coverage.store slot span).length := by
  rw [arrangeBelow, NodeStore.size_setChildren, NodeStore.size_addEach, List.length_map]

/-- The gaps below a node are found by its children and their labels. -/
theorem gapsBelow_congr (fillGaps : Bool) {store other : NodeStore Segment} {slot : Slot}
    (span : Span) (children : store.children slot = other.children slot)
    (labels : ∀ child ∈ other.children slot, store.label? child = other.label? child) :
    gapsBelow fillGaps store slot span = gapsBelow fillGaps other slot span := by
  have spans : (other.children slot).filterMap (span? store) =
      (other.children slot).filterMap (span? other) := by
    refine List.filterMap_congr fun child listed => ?_
    rw [span?_eq, span?_eq, labels child listed]
  rw [gapsBelow, gapsBelow, children, spans]

/-- In a store that has come from another one, the children of a node are in order and have new
nodes for gaps among them. -/
structure Arranges (fillGaps : Bool) (before after : NodeStore Segment) (slot : Slot) (span : Span)
    (node : Node Segment) (fresh arranged : List Slot) : Prop where
  /-- The node before. -/
  found : before.node? slot = some node
  /-- Its children have changed. -/
  changed : after.node? slot = some { node with children := arranged }
  /-- They are the children that it had, and new ones. -/
  perm : arranged.Perm (node.children ++ fresh)
  /-- They come in the order of their offsets. -/
  sorted : arranged.Pairwise fun a b => beginsFirst after a b = true
  /-- The new ones are no old nodes. -/
  new : ∀ child ∈ fresh, before.size ≤ child
  /-- The new ones stand for the gaps. -/
  gaps : fresh.map after.node? = (gapsBelow fillGaps before slot span).map fun gap =>
    some ⟨.fragment gap, some slot, []⟩

section Step

variable (fillGaps : Bool) {coverage : LinkedCoverage} {slot : Slot} (span : Span)
  {node : Node Segment} (found : coverage.store.node? slot = some node)
  (named : ∀ child ∈ node.children, coverage.store.parent? child = some slot ∧ child ≠ slot)

include found named

/-- The nodes after a step: the children of the node are in order, nodes for gaps follow the old
ones, and all others are as they were. -/
theorem node?_arrangeBelow (other : Slot) :
    (arrangeBelow fillGaps coverage slot span).store.node? other =
      if other = slot then
        some { node with
          children :=
            (node.children ++ List.range' coverage.store.size
              (gapsBelow fillGaps coverage.store slot span).length).mergeSort
              (beginsFirst (coverage.store.addEach
                ((gapsBelow fillGaps coverage.store slot span).map .fragment))) }
      else if other < coverage.store.size then coverage.store.node? other
      else
        (gapsBelow fillGaps coverage.store slot span)[other - coverage.store.size]?.map fun gap =>
          ⟨.fragment gap, some slot, []⟩ := by
  have filled := NodeStore.lt_size_of_node? found
  rw [arrangeBelow, NodeStore.children_of_node? found]
  generalize gapsBelow fillGaps coverage.store slot span = gaps
  generalize beginsFirst (coverage.store.addEach (gaps.map .fragment)) = comes
  have members : ∀ child, child ∈ (node.children ++
      List.range' coverage.store.nextSlot gaps.length).mergeSort comes ↔
        child ∈ node.children ∨
          coverage.store.size ≤ child ∧ child < coverage.store.size + gaps.length := by
    intro child
    rw [List.mem_mergeSort, List.mem_append, List.mem_range'_1]
    rfl
  have apart : slot ∉ (node.children ++
      List.range' coverage.store.nextSlot gaps.length).mergeSort comes := by
    rw [members]
    rintro (listed | new)
    · exact (named slot listed).2 rfl
    · exact Nat.not_lt.mpr new.1 filled
  show ((coverage.store.addEach (gaps.map .fragment)).setChildren slot
    ((node.children ++ List.range' coverage.store.nextSlot gaps.length).mergeSort comes)).node?
      other = _
  rw [NodeStore.node?_setChildren _ apart, NodeStore.node?_addEach]
  by_cases here : other = slot
  · subst here
    rw [if_pos rfl, if_pos filled, found, if_pos rfl]
    rfl
  · rw [if_neg here, if_neg here]
    by_cases old : other < coverage.store.size
    · rw [if_pos old, if_pos old]
      split
      · next listed =>
        have child := ((members other).mp listed).resolve_right fun new => Nat.not_lt.mpr new.1 old
        exact NodeStore.map_parent_of_parent? (named other child).1
      · rfl
    · rw [if_neg old, if_neg old, List.getElem?_map, Option.map_map, Option.map_map]
      split
      · rfl
      · next unlisted =>
        have past : gaps[other - coverage.store.size]? = none := by
          refine List.getElem?_eq_none (Nat.not_lt.mp fun within => unlisted ?_)
          have after := Nat.not_lt.mp old
          exact (members other).mpr (.inr ⟨after, (Nat.sub_lt_iff_lt_add' after).mp within⟩)
        rw [past]
        rfl

/-- Other nodes are as they were. -/
theorem node?_arrangeBelow_of_ne {other : Slot} (old : other < coverage.store.size)
    (different : other ≠ slot) :
    (arrangeBelow fillGaps coverage slot span).store.node? other = coverage.store.node? other := by
  rw [node?_arrangeBelow fillGaps span found named, if_neg different, if_pos old]

/-- No old node has another label or parent. -/
theorem outer_arrangeBelow {other : Slot} (old : other < coverage.store.size) :
    (arrangeBelow fillGaps coverage slot span).store.label? other = coverage.store.label? other ∧
      (arrangeBelow fillGaps coverage slot span).store.parent? other =
        coverage.store.parent? other := by
  by_cases here : other = slot
  · subst here
    rw [label?, label?, parent?, parent?, node?_arrangeBelow fillGaps span found named, if_pos rfl,
      found]
    exact ⟨rfl, rfl⟩
  · rw [label?, label?, parent?, parent?,
      node?_arrangeBelow_of_ne fillGaps span found named old here]
    exact ⟨rfl, rfl⟩

/-- The children of the node are in order. -/
theorem arranges_arrangeBelow :
    ∃ fresh arranged, Arranges fillGaps coverage.store
      (arrangeBelow fillGaps coverage slot span).store slot span node fresh arranged := by
  have after := node?_arrangeBelow fillGaps span found named
  refine ⟨List.range' coverage.store.size (gapsBelow fillGaps coverage.store slot span).length, _,
    found, by rw [after, if_pos rfl], List.mergeSort_perm _ _, ?_, ?_, ?_⟩
  · refine (pairwise_beginsFirst_mergeSort _ _).imp fun {a b} first => ?_
    rw [arrangeBelow, beginsFirst_congr (NodeStore.label?_setChildren slot _ a)
      (NodeStore.label?_setChildren slot _ b)]
    exact first
  · exact fun child listed => (List.mem_range'_1.mp listed).1
  · apply List.ext_getElem?
    intro place
    rw [List.getElem?_map, List.getElem?_map]
    by_cases within : place < (gapsBelow fillGaps coverage.store slot span).length
    · have past : ¬ coverage.store.size + place < coverage.store.size := by omega
      have other : coverage.store.size + place ≠ slot := by
        rintro rfl
        exact past (NodeStore.lt_size_of_node? found)
      rw [List.getElem?_range' within, Nat.one_mul, Option.map_some, after, if_neg other,
        if_neg past, Nat.add_sub_cancel_left, List.getElem?_eq_getElem within]
      rfl
    · have past := Nat.not_lt.mp within
      rw [List.getElem?_eq_none past, List.getElem?_eq_none (by simpa using past)]
      rfl

end Step

/-! ## All steps -/

/-- Part of a store has been arranged: the children of some nodes, with their spans. -/
structure Progress (fillGaps : Bool) (before : NodeStore Segment) (done : List (Slot × Span))
    (coverage : LinkedCoverage) : Prop where
  /-- The root is where it was. -/
  root : coverage.store.root = before.root
  /-- The new nodes have been counted. -/
  size : coverage.store.size = before.size + coverage.fragments
  /-- There is one for each gap. -/
  fragments : coverage.fragments =
    (done.flatMap fun place => gapsBelow fillGaps before place.1 place.2).length
  /-- The old nodes have their labels and parents. -/
  outer : ∀ slot < before.size,
    coverage.store.label? slot = before.label? slot ∧
      coverage.store.parent? slot = before.parent? slot
  /-- The nodes that are not yet arranged have not changed. -/
  kept : ∀ slot < before.size, slot ∉ done.map Prod.fst →
    coverage.store.node? slot = before.node? slot
  /-- The others have their children in order. -/
  arranged : ∀ place ∈ done, ∃ node fresh arranged,
    Arranges fillGaps before coverage.store place.1 place.2 node fresh arranged

/-- Before the first step nothing is arranged. -/
theorem progress_start (fillGaps : Bool) (before : NodeStore Segment) :
    Progress fillGaps before [] ⟨before, 0⟩ := by
  constructor
  case root => rfl
  case size => rfl
  case fragments => rfl
  case outer => exact fun _ _ => ⟨rfl, rfl⟩
  case kept => exact fun _ _ _ => rfl
  case arranged => exact fun _ done => absurd done List.not_mem_nil

section Steps

variable {fillGaps : Bool} {before : NodeStore Segment} {done : List (Slot × Span)}
  {coverage : LinkedCoverage}
  (named : ∀ slot, ∀ child ∈ before.children slot, before.parent? child = some slot ∧ child ≠ slot)

include named

/-- What has been arranged stays so while one other node changes its children only. -/
theorem Arranges.frame {store after : NodeStore Segment} {slot other : Slot} {span : Span}
    {node : Node Segment} {fresh arranged : List Slot}
    (arranges : Arranges fillGaps before store slot span node fresh arranged)
    (more : before.size ≤ store.size) (old : other < before.size) (different : slot ≠ other)
    (same : ∀ slot < store.size, slot ≠ other → after.node? slot = store.node? slot)
    (labels : ∀ slot < store.size, after.label? slot = store.label? slot) :
    Arranges fillGaps before after slot span node fresh arranged := by
  have filled := Nat.lt_of_lt_of_le (NodeStore.lt_size_of_node? arranges.found) more
  have fresh_filled : ∀ child ∈ fresh, child < store.size := by
    intro child listed
    have found : store.node? child ∈ fresh.map store.node? := List.mem_map_of_mem listed
    rw [arranges.gaps] at found
    obtain ⟨gap, -, here⟩ := List.mem_map.mp found
    exact NodeStore.lt_size_of_node? here.symm
  have all_filled : ∀ child ∈ arranged, child < store.size := by
    intro child listed
    rcases List.mem_append.mp (arranges.perm.mem_iff.mp listed) with child_old | child_new
    · rw [← NodeStore.children_of_node? arranges.found] at child_old
      exact Nat.lt_of_lt_of_le (NodeStore.lt_size_of_parent? (named slot child child_old).1) more
    · exact fresh_filled child child_new
  constructor
  case found => exact arranges.found
  case changed => rw [same slot filled different, arranges.changed]
  case perm => exact arranges.perm
  case sorted =>
    refine arranges.sorted.imp_of_mem fun {a b} left right first => ?_
    rw [beginsFirst_congr (labels a (all_filled a left)) (labels b (all_filled b right))]
    exact first
  case new => exact arranges.new
  case gaps =>
    rw [← arranges.gaps]
    refine List.map_congr_left fun child listed => same child (fresh_filled child listed) ?_
    rintro rfl
    exact Nat.not_lt.mpr (arranges.new child listed) old

section Next

variable (progress : Progress fillGaps before done coverage) {slot : Slot} (span : Span)
  {node : Node Segment} (found : before.node? slot = some node) (next : slot ∉ done.map Prod.fst)

include progress found

/-- The children of a node keep their labels and still name it. -/
theorem Progress.children_next : ∀ child ∈ node.children,
    coverage.store.label? child = before.label? child ∧
      coverage.store.parent? child = some slot ∧ child ≠ slot := by
  intro child listed
  rw [← NodeStore.children_of_node? found] at listed
  obtain ⟨above, different⟩ := named slot child listed
  obtain ⟨label, parent⟩ := progress.outer child (NodeStore.lt_size_of_parent? above)
  exact ⟨label, parent.trans above, different⟩

include next

omit named in
/-- A node that is still to be arranged is as it was. -/
theorem Progress.node?_next : coverage.store.node? slot = some node := by
  rw [progress.kept slot (NodeStore.lt_size_of_node? found) next, found]

/-- The gaps to be filled below it are those that there were at first. -/
theorem Progress.gapsBelow_next :
    gapsBelow fillGaps coverage.store slot span = gapsBelow fillGaps before slot span := by
  have here := progress.node?_next found next
  apply gapsBelow_congr
  · rw [NodeStore.children_of_node? here, NodeStore.children_of_node? found]
  · intro child listed
    rw [NodeStore.children_of_node? found] at listed
    exact (progress.children_next named found child listed).1

/-- A step arranges one more node. -/
theorem Progress.step :
    Progress fillGaps before (done ++ [(slot, span)])
      (arrangeBelow fillGaps coverage slot span) := by
  have old := NodeStore.lt_size_of_node? found
  have more : before.size ≤ coverage.store.size := by
    rw [progress.size]
    exact Nat.le_add_right _ _
  have here := progress.node?_next found next
  have gaps := progress.gapsBelow_next named span found next
  have here_named := fun child listed => (progress.children_next named found child listed).2
  have outer : ∀ other < coverage.store.size,
      (arrangeBelow fillGaps coverage slot span).store.label? other = coverage.store.label? other ∧
        (arrangeBelow fillGaps coverage slot span).store.parent? other =
          coverage.store.parent? other :=
    fun _ filled => outer_arrangeBelow fillGaps span here here_named filled
  constructor
  case root =>
    exact (NodeStore.root_setChildren ..).trans
      ((NodeStore.root_addEach ..).trans progress.root)
  case size =>
    rw [size_arrangeBelow, progress.size, Nat.add_assoc]
    rfl
  case fragments =>
    show coverage.fragments + (gapsBelow fillGaps coverage.store slot span).length = _
    rw [gaps, progress.fragments]
    simp
  case outer =>
    intro other filled
    obtain ⟨label, parent⟩ := progress.outer other filled
    obtain ⟨sameLabel, sameParent⟩ := outer other (Nat.lt_of_lt_of_le filled more)
    exact ⟨sameLabel.trans label, sameParent.trans parent⟩
  case kept =>
    intro other filled undone
    simp only [List.map_append, List.mem_append, not_or] at undone
    have different : other ≠ slot := by
      rintro rfl
      exact undone.2 (by simp)
    rw [node?_arrangeBelow_of_ne fillGaps span here here_named (Nat.lt_of_lt_of_le filled more)
      different, progress.kept other filled undone.1]
  case arranged =>
    rw [List.forall_mem_append, List.forall_mem_singleton]
    constructor
    · intro place placed
      obtain ⟨other, fresh, arranged, arranges⟩ := progress.arranged place placed
      refine ⟨other, fresh, arranged, arranges.frame named more old ?_ ?_ ?_⟩
      · rintro rfl
        exact next (List.mem_map_of_mem placed)
      · exact fun other filled different =>
          node?_arrangeBelow_of_ne fillGaps span here here_named filled different
      · exact fun other filled => (outer other filled).1
    · obtain ⟨fresh, arranged, arranges⟩ := arranges_arrangeBelow fillGaps span here here_named
      refine ⟨node, fresh, arranged, found, arranges.changed, arranges.perm, arranges.sorted,
        fun child listed => Nat.le_trans more (arranges.new child listed), ?_⟩
      rw [arranges.gaps, gaps]

end Next

/-- All steps arrange all nodes. -/
theorem Progress.steps (progress : Progress fillGaps before done coverage)
    {rest : List (Slot × Span)} (filled : ∀ place ∈ rest, ∃ node, before.node? place.1 = some node)
    (distinct : ((done ++ rest).map Prod.fst).Nodup) :
    Progress fillGaps before (done ++ rest)
      (rest.foldl (fun coverage place => arrangeBelow fillGaps coverage place.1 place.2)
        coverage) := by
  induction rest generalizing done coverage with
  | nil =>
    rw [List.append_nil]
    exact progress
  | cons place rest later =>
    obtain ⟨⟨node, found⟩, filled⟩ := List.forall_mem_cons.mp filled
    have split : done ++ place :: rest = (done ++ [place]) ++ rest := by simp
    have next : place.1 ∉ done.map Prod.fst := by
      rw [List.map_append, List.map_cons, List.nodup_append] at distinct
      intro before
      exact distinct.2.2 _ before _ List.mem_cons_self rfl
    rw [split] at distinct ⊢
    exact later (progress.step named place.2 found next) filled distinct

end Steps

/-! ## The inner nodes -/

/-- The inner places are the top and the nodes with children, each with the span of its label. -/
theorem inner?_eq_some_iff {store : NodeStore Segment} {slot : Slot} {place : Slot × Span} :
    inner? store slot = some place ↔
      ∃ node, store.node? slot = some node ∧ (slot = top ∨ node.children ≠ []) ∧
        place = (slot, node.label.span) := by
  rw [inner?, Option.bind_eq_some_iff]
  refine exists_congr fun node => and_congr_right fun _ => ?_
  rw [Option.ite_none_right_eq_some, Option.some.injEq, List.isEmpty_iff, eq_comm (b := place)]

/-- All inner places that the walk comes to are arranged. -/
theorem mem_inner {store : NodeStore Segment} {place : Slot × Span} :
    place ∈ inner store ↔
      place.1 ∈ store.preorder ∧
        ∃ node, store.node? place.1 = some node ∧ (place.1 = top ∨ node.children ≠ []) ∧
          place.2 = node.label.span := by
  rw [inner, List.mem_filterMap]
  simp only [inner?_eq_some_iff]
  constructor
  · rintro ⟨slot, met, node, found, branches, rfl⟩
    exact ⟨met, node, found, branches, rfl⟩
  · rintro ⟨met, node, found, branches, same⟩
    exact ⟨place.1, met, node, found, branches, Prod.ext rfl same⟩

/-- The inner nodes are met in the order of the walk. -/
theorem map_fst_inner_sublist (store : NodeStore Segment) :
    ((inner store).map Prod.fst).Sublist store.preorder := by
  rw [inner]
  induction store.preorder with
  | nil => exact List.Sublist.refl _
  | cons slot rest later =>
    cases found : inner? store slot with
    | none =>
      rw [List.filterMap_cons_none found]
      exact later.cons slot
    | some place =>
      obtain ⟨node, -, -, rfl⟩ := inner?_eq_some_iff.mp found
      rw [List.filterMap_cons_some found]
      exact later.cons_cons slot

/-- If no node is met twice, the arrangement arranges each inner node. -/
theorem progress_arrange (fillGaps : Bool) {before : NodeStore Segment}
    (named : ∀ slot, ∀ child ∈ before.children slot,
      before.parent? child = some slot ∧ child ≠ slot)
    (distinct : before.preorder.Nodup) :
    Progress fillGaps before (inner before) (arrange fillGaps before) := by
  refine (progress_start fillGaps before).steps named ?_ ?_
  · intro place listed
    obtain ⟨-, node, found, -⟩ := mem_inner.mp listed
    exact ⟨node, found⟩
  · exact distinct.sublist (map_fst_inner_sublist before)

end Laminar.LinkedCoverage
