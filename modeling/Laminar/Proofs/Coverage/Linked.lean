import Laminar.Proofs.Coverage.Arranging
import Laminar.Proofs.Coverage.Fragments
import Laminar.Proofs.Coverage.Gathering
import Laminar.Proofs.Coverage.Tiling
import Laminar.Proofs.Nesting.Sweep

/-!
# Coverages by links

A coverage that is put together in a node store is the one that is built as a value
(`build_shows`). The children of each node, put in order, are the trees below it, because these
begin one after the other, so there is one order only (`eq_of_unfolds`). The nodes made for gaps
have been counted one by one, and the count is the number of fragments in the tree
(`length_gaps_tile`).
-/

namespace Laminar.LinkedCoverage

open Coverage (Segment ofNesting tile tileBelow gapBefore)
open NodeStore (label? parent?)
open scoped List

/-! ## What stands where -/

/-- The gaps that are to be filled below a label: none below an entry without children. -/
def expected (fillGaps : Bool) (slot : Slot) (span : Span) (children : List Entry) : List Span :=
  if fillGaps = true ∧ (slot = top ∨ children ≠ []) then span.gaps (children.map Entry.span) else []

section Stands

variable {entries : List Entry} {before : NodeStore Segment} {slot : Slot} {label : Segment}
  {children : List Entry}

/-- A node with a label has the nodes of some entries for children, in any order, and a walk meets
it. -/
structure Stands (entries : List Entry) (before : NodeStore Segment) (slot : Slot) (label : Segment)
    (children : List Entry) : Prop where
  /-- The node has the label and the children. -/
  node : ∃ node, before.node? slot = some node ∧ node.label = label ∧
    node.children.Perm (children.map (slotOf entries))
  /-- The children have the labels of the entries. -/
  labels : ∀ child ∈ children, before.label? (slotOf entries child) = some (.ofEntry child)
  /-- A walk meets the node. -/
  met : slot ∈ before.preorder

/-- The gaps below the node are those between its children. -/
theorem Stands.gapsBelow_eq (stands : Stands entries before slot label children) (fillGaps : Bool) :
    gapsBelow fillGaps before slot label.span =
      if fillGaps then label.span.gaps (children.map Entry.span) else [] := by
  obtain ⟨⟨node, found, -, same⟩, labels, -⟩ := stands
  have spans : (children.map (slotOf entries)).filterMap (span? before) =
      children.map Entry.span := by
    rw [List.filterMap_map, ← List.filterMap_eq_map]
    refine List.filterMap_congr fun child listed => ?_
    rw [Function.comp_apply, span?_eq, labels child listed]
    rfl
  rw [gapsBelow, NodeStore.children_of_node? found,
    Span.gaps_perm label.span (same.filterMap (span? before)), spans]

/-- The node is an inner one if it is the file's or has children. -/
theorem Stands.inner?_eq (stands : Stands entries before slot label children) :
    inner? before slot =
      if slot = top ∨ children ≠ [] then some (slot, label.span) else none := by
  obtain ⟨⟨node, found, rfl, same⟩, -, -⟩ := stands
  have leaf : node.children.isEmpty = true ↔ children = [] := by
    rw [List.isEmpty_iff]
    constructor
    · intro none_there
      rw [none_there] at same
      exact List.map_eq_nil_iff.mp same.nil_eq.symm
    · rintro rfl
      exact same.eq_nil
  rw [inner?, found, Option.bind_some]
  simp only [leaf]

/-- The gaps that the arrangement fills below a node. -/
def gapsAt (fillGaps : Bool) (before : NodeStore Segment) (slot : Slot) : List Span :=
  ((inner? before slot).map fun place => gapsBelow fillGaps before place.1 place.2).getD []

/-- The gaps filled below a node are those between what lies in it, if it is an inner one. -/
theorem Stands.gapsAt_eq (stands : Stands entries before slot label children) (fillGaps : Bool) :
    gapsAt fillGaps before slot = expected fillGaps slot label.span children := by
  rw [gapsAt, stands.inner?_eq, expected]
  by_cases inner : slot = top ∨ children ≠ []
  · rw [if_pos inner, Option.map_some, stands.gapsBelow_eq]
    cases fillGaps <;> simp [inner]
  · rw [if_neg inner, if_neg fun both => inner both.2]
    rfl

/-- If gaps are not filled, there is none below any node. -/
theorem gapsAt_false (before : NodeStore Segment) (slot : Slot) :
    gapsAt false before slot = [] := by
  unfold gapsAt
  cases inner? before slot <;> rfl

/-- A node with a label has for children, in the order of their offsets, the nodes of some entries
and others for the gaps between them. -/
def Settles (fillGaps : Bool) (entries : List Entry) (after : NodeStore Segment) (slot : Slot)
    (label : Segment) (children : List Entry) : Prop :=
  ∃ parent fresh arranged, after.node? slot = some ⟨label, parent, arranged⟩ ∧
    arranged.Perm (children.map (slotOf entries) ++ fresh) ∧
    (arranged.Pairwise fun a b => beginsFirst after a b = true) ∧
    (∀ child ∈ arranged, after.parent? child = some slot) ∧
    fresh.map after.node? = (expected fillGaps slot label.span children).map fun gap =>
      some ⟨.fragment gap, some slot, []⟩

variable {fillGaps : Bool} {coverage : LinkedCoverage}
  (named : ∀ slot, ∀ child ∈ before.children slot, before.parent? child = some slot ∧ child ≠ slot)

include named

/-- The arrangement puts the children of each node in order. -/
theorem Stands.settles (stands : Stands entries before slot label children)
    (progress : Progress fillGaps before (inner before) coverage) :
    Settles fillGaps entries coverage.store slot label children := by
  have gaps := stands.gapsBelow_eq fillGaps
  have branches := stands.inner?_eq
  obtain ⟨⟨node, found, rfl, same⟩, -, met⟩ := stands
  have parents : ∀ child ∈ node.children, coverage.store.parent? child = some slot := by
    intro child listed
    rw [← NodeStore.children_of_node? found] at listed
    have upper := (named slot child listed).1
    rw [(progress.outer child (NodeStore.lt_size_of_parent? upper)).2, upper]
  by_cases inner : slot = top ∨ children ≠ []
  · rw [if_pos inner] at branches
    have listed : (slot, node.label.span) ∈ LinkedCoverage.inner before :=
      List.mem_filterMap.mpr ⟨slot, met, branches⟩
    obtain ⟨other, fresh, arranged, arranges⟩ := progress.arranged _ listed
    obtain rfl : other = node := Option.some.inj (arranges.found.symm.trans found)
    have filled : fresh.map coverage.store.node? =
        (expected fillGaps slot other.label.span children).map fun gap =>
          some ⟨.fragment gap, some slot, []⟩ := by
      rw [arranges.gaps, gaps, expected]
      cases fillGaps <;> simp [inner]
    refine ⟨other.parent, fresh, arranged, arranges.changed,
      arranges.perm.trans (same.append_right fresh), arranges.sorted,
      fun child present => ?_, filled⟩
    rcases List.mem_append.mp (arranges.perm.mem_iff.mp present) with old | new
    · exact parents child old
    · have fragment : coverage.store.node? child ∈ fresh.map coverage.store.node? :=
        List.mem_map_of_mem new
      rw [filled] at fragment
      obtain ⟨gap, -, here⟩ := List.mem_map.mp fragment
      rw [parent?, ← here]
      rfl
  · have leaf : children = [] := by
      by_contra some_child
      exact inner (.inr some_child)
    subst leaf
    have undone : slot ∉ (LinkedCoverage.inner before).map Prod.fst := by
      intro done
      obtain ⟨place, listed, rfl⟩ := List.mem_map.mp done
      obtain ⟨-, lower, lower_found, branch, -⟩ := mem_inner.mp listed
      obtain rfl : lower = node := Option.some.inj (lower_found.symm.trans found)
      rw [same.eq_nil] at branch
      exact inner (branch.imp_right fun child => absurd rfl child)
    refine ⟨node.parent, [], [], ?_, List.Perm.refl _, List.Pairwise.nil, by simp, ?_⟩
    · rw [progress.kept slot (NodeStore.lt_size_of_node? found) undone, found]
      rw [← same.eq_nil]
    · rw [expected, if_neg fun both => inner both.2]
      rfl

end Stands

/-! ## Children in order -/

section Trees

variable {fillGaps : Bool} {entries : List Entry} {after : NodeStore Segment}

/-- Slots in the order of their offsets are in the order of trees that begin one after the other.
Two slots that each come no later than the other are one, because different ones have an order. -/
theorem eq_of_unfolds {arranged slots : List Slot} {g : Grove Segment} (same : arranged.Perm slots)
    (sorted : arranged.Pairwise fun a b => beginsFirst after a b = true)
    (unfolds : after.Unfolds slots g)
    (ascending : g.roots.Pairwise fun a b => a.span.start < b.span.start) : arranged = slots := by
  have labels : (slots.map after.label?).Pairwise fun x y =>
      ∃ a b, x = some a ∧ y = some b ∧ a.span.start < b.span.start := by
    rw [unfolds.map_label?, List.pairwise_map]
    exact ascending.imp fun {a b} first => ⟨a, b, rfl, rfl, first⟩
  have strict : slots.Pairwise fun a b =>
      beginsFirst after a b = true ∧ beginsFirst after b a = false := by
    refine (List.pairwise_map.mp labels).imp fun {a b} first => ?_
    obtain ⟨x, y, left, right, before⟩ := first
    rw [beginsFirst, beginsFirst, span?_eq, span?_eq, left, right]
    exact ⟨decide_eq_true (UInt64.le_of_lt before), decide_eq_false (UInt64.not_le.mpr before)⟩
  have antisymm := List.Pairwise.forall_of_forall_of_flip
    (R := fun a b => beginsFirst after a b = true → beginsFirst after b a = true → a = b)
    (fun _ _ _ _ => rfl) (strict.imp fun first _ second => by simp [first.2] at second)
    (strict.imp fun first second _ => by simp [first.2] at second)
  exact List.Perm.eq_of_pairwise
    (fun a b left right first second => antisymm (same.mem_iff.mp left) right first second)
    sorted (strict.imp And.left) same

/-- Trees that lie one after the other begin one after the other. -/
theorem ascending_of_within {g : Grove Segment} {start stop : UInt64}
    (within : g.Within Segment.span start stop) :
    g.roots.Pairwise fun a b => a.span.start < b.span.start := by
  refine within.pairwise_roots.imp_of_mem fun {a b} first _ ended => ?_
  exact UInt64.lt_of_lt_of_le
    (within.inside a ((Grove.roots_sublist_labels g).subset first)).2.1 ended

/-- A node whose children in order are the slots of trees has these trees below it. -/
theorem Settles.unfolds {slot : Slot} {label : Segment} {children : List Entry} {g : Grove Segment}
    (settles : Settles fillGaps entries after slot label children)
    (trees : ∀ fresh, (fresh.map after.node? =
        (expected fillGaps slot label.span children).map fun gap =>
          some ⟨.fragment gap, some slot, []⟩) →
      ∃ slots, slots.Perm (children.map (slotOf entries) ++ fresh) ∧ after.Unfolds slots g)
    (ascending : g.roots.Pairwise fun a b => a.span.start < b.span.start) :
    after.Unfolds [slot] (.tree label g) := by
  obtain ⟨parent, fresh, arranged, here, perm, sorted, named, gaps⟩ := settles
  obtain ⟨slots, same, unfolds⟩ := trees fresh gaps
  obtain rfl := eq_of_unfolds (perm.trans same.symm) sorted unfolds ascending
  exact .node here named unfolds .nil

/-- Nodes for a gap, if there is one, come first. -/
theorem unfolds_gapBefore {start stop : UInt64} {owner : Slot} {fresh rest : List Slot}
    {beside : Grove Segment} (unfolds : after.Unfolds rest beside)
    (gaps : fresh.map after.node? =
      (if start < stop then [⟨start, stop⟩] else []).map fun gap =>
        some ⟨.fragment gap, some owner, []⟩) :
    after.Unfolds (fresh ++ rest) (gapBefore start stop beside) := by
  unfold gapBefore
  by_cases proper : start < stop
  · rw [if_pos proper] at gaps ⊢
    obtain ⟨slot, others, rfl, here, none_left⟩ := List.map_eq_cons_iff.mp gaps
    obtain rfl := List.map_eq_nil_iff.mp none_left
    exact .node here (fun child listed => absurd listed List.not_mem_nil) .nil unfolds
  · rw [if_neg proper] at gaps ⊢
    obtain rfl := List.map_eq_nil_iff.mp gaps
    exact unfolds

/-- Before the first claim is the gap up to it, and the others come from where it ends. -/
theorem gapsFrom_cons (cursor stop : UInt64) (claim : Span) (rest : List Span) :
    Span.gapsFrom cursor stop (claim :: rest) =
      (if cursor < claim.start then [⟨cursor, claim.start⟩] else []) ++
        Span.gapsFrom (max cursor claim.stop) stop rest := by
  rw [Span.gapsFrom]
  split <;> rfl

/-- The slot of an entry is not the file's. -/
theorem slotOf_ne_top (entry : Entry) : slotOf entries entry ≠ top :=
  Nat.succ_ne_zero _

/-- Nodes for entries and for the gaps between them are, in order, the trees that tile what they
lie in. -/
theorem exists_unfolds_tile {nesting : Grove Entry} {start last : UInt64}
    (within : nesting.Within Entry.span start last)
    (settled : nesting.Families fun entry children =>
      Settles true entries after (slotOf entries entry) (.ofEntry entry) children)
    {cursor stop : UInt64} {owner : Slot} {fresh : List Slot}
    (gaps : fresh.map after.node? =
      (Span.gapsFrom cursor stop (nesting.roots.map Entry.span)).map fun gap =>
        some ⟨.fragment gap, some owner, []⟩) :
    ∃ slots, slots.Perm (nesting.roots.map (slotOf entries) ++ fresh) ∧
      after.Unfolds slots (tile cursor stop nesting) := by
  induction nesting generalizing start last cursor stop owner fresh with
  | nil =>
    have unfolds : after.Unfolds (fresh ++ []) (tile cursor stop .nil) :=
      unfolds_gapBefore .nil gaps
    exact ⟨fresh ++ [], by rw [List.append_nil]; exact List.Perm.refl _, unfolds⟩
  | node entry below beside inner later =>
    obtain ⟨-, lower, right⟩ := within
    obtain ⟨settles, settledBelow, settledBeside⟩ := settled
    rw [Grove.roots, List.map_cons, gapsFrom_cons, List.map_append] at gaps
    obtain ⟨first, others, rfl, firstGaps, otherGaps⟩ := List.map_eq_append_iff.mp gaps
    obtain ⟨slots, same, unfolds⟩ := later right settledBeside otherGaps
    have tree : after.Unfolds [slotOf entries entry]
        (.tree (.ofEntry entry) (tileBelow entry below)) := by
      by_cases leaf : below = .nil
      · subst leaf
        refine settles.unfolds (fun fresh filled => ⟨[], ?_, .nil⟩) List.Pairwise.nil
        rw [expected, if_neg (by simp [Grove.roots, slotOf_ne_top])] at filled
        rw [List.map_eq_nil_iff.mp filled]
        exact List.Perm.refl _
      · rw [Coverage.tileBelow_of_ne_nil entry leaf]
        refine settles.unfolds (fun fresh filled => ?_)
          (ascending_of_within (Coverage.within_tile lower))
        have some_child : below.roots ≠ [] := fun bare =>
          leaf ((Grove.isEmpty_iff_eq_nil _).mp ((Grove.isEmpty_iff_roots _).mpr bare))
        have gaps : expected true (slotOf entries entry) entry.span below.roots =
            Span.gapsFrom entry.span.start entry.span.stop (below.roots.map Entry.span) := by
          rw [expected, if_pos ⟨rfl, .inr some_child⟩, lower.gaps_roots]
        exact inner lower settledBelow (filled.trans (congrArg _ gaps))
    refine ⟨first ++ slotOf entries entry :: slots, ?_, ?_⟩
    · calc first ++ slotOf entries entry :: slots
        _ ~ first ++ slotOf entries entry :: (beside.roots.map (slotOf entries) ++ others) :=
          (same.cons _).append_left first
        _ ~ slotOf entries entry :: (beside.roots.map (slotOf entries) ++ others) ++ first :=
          List.perm_append_comm
        _ ~ slotOf entries entry :: beside.roots.map (slotOf entries) ++ (first ++ others) := by
          rw [List.cons_append, List.cons_append, List.append_assoc]
          exact (List.perm_append_comm.append_left _).cons _
    · rw [Coverage.tile_node]
      exact unfolds_gapBefore (tree.append unfolds) firstGaps

/-- Without nodes for gaps, the nodes for entries are in order as the entries nest. -/
theorem unfolds_bare {nesting : Grove Entry} {start last : UInt64}
    (within : nesting.Within Entry.span start last)
    (settled : nesting.Families fun entry children =>
      Settles false entries after (slotOf entries entry) (.ofEntry entry) children) :
    after.Unfolds (nesting.roots.map (slotOf entries)) (nesting.map .ofEntry) := by
  induction nesting generalizing start last with
  | nil => exact .nil
  | node entry below beside inner later =>
    obtain ⟨-, lower, right⟩ := within
    obtain ⟨settles, settledBelow, settledBeside⟩ := settled
    have ascending : (below.map Segment.ofEntry).Within Segment.span entry.span.start
        entry.span.stop := Grove.Within.map (f := Segment.ofEntry) lower
    have tree : after.Unfolds [slotOf entries entry]
        (.tree (.ofEntry entry) (below.map .ofEntry)) := by
      refine settles.unfolds (fun fresh filled => ?_) (ascending_of_within ascending)
      obtain rfl := List.map_eq_nil_iff.mp filled
      exact ⟨_, by rw [List.append_nil], inner lower settledBelow⟩
    exact tree.append (later right settledBeside)

/-- The nodes unfold to the tree of the coverage. -/
theorem unfolds_tree {span : Span} {nesting : Grove Entry}
    (within : nesting.Within Entry.span span.start span.stop)
    (file : Settles fillGaps entries after top (.file span) nesting.roots)
    (settled : nesting.Families fun entry children =>
      Settles fillGaps entries after (slotOf entries entry) (.ofEntry entry) children) :
    after.Unfolds [top] (ofNesting span fillGaps nesting).tree := by
  cases fillGaps with
  | true =>
    refine file.unfolds (fun fresh filled => ?_) (ascending_of_within (Coverage.within_tile within))
    have gaps : expected true top span nesting.roots =
        Span.gapsFrom span.start span.stop (nesting.roots.map Entry.span) := by
      rw [expected, if_pos ⟨rfl, .inl rfl⟩, within.gaps_roots]
    exact exists_unfolds_tile within settled (filled.trans (congrArg _ gaps))
  | false =>
    have ascending : (nesting.map Segment.ofEntry).Within Segment.span span.start span.stop :=
      Grove.Within.map (f := Segment.ofEntry) within
    refine file.unfolds (fun fresh filled => ?_) (ascending_of_within ascending)
    obtain rfl := List.map_eq_nil_iff.mp filled
    exact ⟨_, by rw [List.append_nil], unfolds_bare within settled⟩

end Trees

/-! ## Counts -/

section Counts

/-- The gaps below all entries, with those between the trees, are as many as the fragments among the
segments that tile. -/
theorem length_gaps_tile {below : Entry → List Span} {nesting : Grove Entry} {start last : UInt64}
    (within : nesting.Within Entry.span start last)
    (gaps : nesting.Families fun entry children =>
      below entry = if children = [] then [] else entry.span.gaps (children.map Entry.span))
    (cursor stop : UInt64) :
    (nesting.labels.flatMap below).length +
        (Span.gapsFrom cursor stop (nesting.roots.map Entry.span)).length =
      (tile cursor stop nesting).labels.countP Segment.isFragment := by
  induction nesting generalizing start last cursor stop with
  | nil =>
    rw [Grove.labels, Grove.roots, List.map_nil, List.flatMap_nil, List.length_nil, Span.gapsFrom,
      tile, gapBefore, Nat.zero_add]
    split <;> rfl
  | node entry lower beside inner later =>
    obtain ⟨-, lowerWithin, besideWithin⟩ := within
    obtain ⟨here, lowerGaps, besideGaps⟩ := gaps
    have inTree : (below entry).length + (lower.labels.flatMap below).length =
        (tileBelow entry lower).labels.countP Segment.isFragment := by
      by_cases leaf : lower = .nil
      · subst leaf
        rw [here, Grove.roots, if_pos rfl]
        rfl
      · have some_child : lower.roots ≠ [] := fun bare =>
          leaf ((Grove.isEmpty_iff_eq_nil _).mp ((Grove.isEmpty_iff_roots _).mpr bare))
        rw [here, if_neg some_child, lowerWithin.gaps_roots,
          Coverage.tileBelow_of_ne_nil entry leaf, ← inner lowerWithin lowerGaps, Nat.add_comm]
    have right := later besideWithin besideGaps (max cursor entry.span.stop) stop
    have first : (if cursor < entry.span.start then
        [(⟨cursor, entry.span.start⟩ : Span)] else []).length =
          if cursor < entry.span.start then 1 else 0 := by
      split <;> rfl
    have parts : (Grove.node (Segment.ofEntry entry) (tileBelow entry lower)
        (tile (max cursor entry.span.stop) stop beside)).labels.countP Segment.isFragment =
          (tileBelow entry lower).labels.countP Segment.isFragment +
            (tile (max cursor entry.span.stop) stop beside).labels.countP Segment.isFragment := by
      rw [Grove.labels, List.countP_cons_of_neg (by simp), List.countP_append]
    rw [Coverage.tile_node, Coverage.countP_isFragment_labels_gapBefore, parts, ← inTree, ← right,
      Grove.labels, Grove.roots, List.map_cons, List.flatMap_cons, List.flatMap_append,
      List.length_append, List.length_append, gapsFrom_cons, List.length_append, first]
    omega

/-- What is listed for what is found for the members of a list is listed for all members. -/
theorem flatMap_filterMap {α β γ : Type} (found : α → Option β) (listed : β → List γ)
    (list : List α) :
    (list.filterMap found).flatMap listed =
      list.flatMap fun x => ((found x).map listed).getD [] := by
  induction list with
  | nil => rfl
  | cons x rest later =>
    rw [List.flatMap_cons, ← later]
    cases here : found x with
    | none => rw [List.filterMap_cons_none here]; rfl
    | some y => rw [List.filterMap_cons_some here, List.flatMap_cons]; rfl

end Counts

/-! ## The whole coverage -/

section Gathered

variable {span : Span} {entries : List Entry} {nesting : Grove Entry} {before : NodeStore Segment}
  (gathered : Gathered span entries nesting before)

include gathered

/-- The node of the file stands above the outermost entries. -/
theorem Gathered.stands_file : Stands entries before top (.file span) nesting.roots := by
  obtain ⟨⟨node, found, children⟩, -, -⟩ := gathered.links
  have label := gathered.file.1
  rw [label?, found] at label
  rw [Grove.roots_map] at children
  refine ⟨⟨node, found, Option.some.inj label, children⟩, fun child top => ?_, ?_⟩
  · exact gathered.labels child ((Grove.roots_sublist_labels nesting).subset top)
  · exact gathered.preorder.mem_iff.mpr List.mem_cons_self

/-- The node of each entry stands above those for the entries just below it. -/
theorem Gathered.families_stands : nesting.Families fun entry children =>
    Stands entries before (slotOf entries entry) (.ofEntry entry) children := by
  have links := (Grove.families_map (slotOf entries) _ nesting).mp gathered.links.2.1
  refine (Grove.families_iff _ _).mpr fun place placed => ?_
  obtain ⟨node, found, children⟩ := (Grove.families_iff _ _).mp links place placed
  have present := Grove.label_mem_of_mem_placesBelow placed
  have label := gathered.labels _ present
  rw [label?, found] at label
  refine ⟨⟨node, found, Option.some.inj label, children⟩, fun child lower => ?_, ?_⟩
  · apply gathered.labels child
    have linked :=
      (Grove.some_mem_links_iff nesting child place.label).mpr ⟨place, placed, rfl, lower⟩
    rw [← Grove.map_fst_links]
    exact List.mem_map_of_mem linked
  · exact gathered.preorder.mem_iff.mpr (List.mem_cons_of_mem _ (List.mem_map_of_mem present))

variable {fillGaps : Bool} {coverage : LinkedCoverage}
  (within : nesting.Within Entry.span span.start span.stop)
  (progress : Progress fillGaps before (inner before) coverage)

include within progress

/-- The nodes that were made for gaps are the fragments of the coverage. -/
theorem Gathered.fragments_eq :
    coverage.fragments = (ofNesting span fillGaps nesting).fragmentCount := by
  have gaps := gathered.families_stands.imp fun entry children stands => stands.gapsAt_eq fillGaps
  have all : coverage.fragments = (gapsAt fillGaps before top).length +
      (nesting.labels.flatMap fun entry =>
        gapsAt fillGaps before (slotOf entries entry)).length := by
    calc coverage.fragments
      _ = (before.preorder.flatMap (gapsAt fillGaps before)).length := by
        rw [progress.fragments, inner, flatMap_filterMap]
        rfl
      _ = _ := by
        rw [(gathered.preorder.flatMap_right (gapsAt fillGaps before)).length_eq, List.flatMap_cons,
          List.length_append, List.flatMap_map]
  rw [all, gathered.stands_file.gapsAt_eq]
  cases fillGaps with
  | true =>
    have fileGaps : expected true top (Segment.file span).span nesting.roots =
        Span.gapsFrom span.start span.stop (nesting.roots.map Entry.span) := by
      rw [expected, if_pos ⟨rfl, .inl rfl⟩]
      exact within.gaps_roots
    rw [fileGaps, Nat.add_comm]
    refine length_gaps_tile within (gaps.imp fun entry children below => ?_) span.start span.stop
    rw [below]
    by_cases leaf : children = []
    · rw [expected, if_neg (by simp [leaf, slotOf_ne_top]), if_pos leaf]
    · rw [expected, if_pos ⟨rfl, .inr leaf⟩, if_neg leaf]
      rfl
  | false =>
    rw [Coverage.fragmentCount_bare, expected, if_neg (by simp)]
    simp [gapsAt_false]

/-- The nodes in the store are the nodes of the coverage. -/
theorem Gathered.size_eq (emitted : nesting.labels.Perm entries) :
    coverage.store.size = (ofNesting span fillGaps nesting).nodeCount := by
  rw [progress.size, gathered.size, gathered.fragments_eq within progress, ← emitted.length_eq,
    Coverage.nodeCount_ofNesting, Nat.add_comm 1]

end Gathered

/-- A node store shows a coverage: the node in slot zero is its root, the links make its tree, and
what has been counted are its nodes and its fragments. -/
structure Shows (linked : LinkedCoverage) (coverage : Coverage) : Prop where
  /-- The file's node is the root. -/
  root : linked.store.root = some top
  /-- The file's node has no parent. -/
  parent : linked.store.parent? top = none
  /-- The links make the tree, and every child names the node above it. -/
  unfolds : linked.store.Unfolds [top] coverage.tree
  /-- All nodes in the store are nodes of the tree. -/
  nodeCount : linked.nodeCount = coverage.nodeCount
  /-- The nodes that were made for gaps are the fragments. -/
  fragmentCount : linked.fragmentCount = coverage.fragmentCount

/-- A walk meets the segments of the coverage, each before those below it. -/
theorem Shows.visited_eq {linked : LinkedCoverage} {coverage : Coverage}
    (shows : Shows linked coverage) : linked.visited = coverage.tree.labels := by
  have few : coverage.tree.size ≤ linked.store.size := Nat.le_of_eq shows.nodeCount.symm
  have met := shows.unfolds.map_preorder shows.root few
  have found : linked.visited = (linked.store.preorder.map linked.store.label?).filterMap id := by
    rw [List.filterMap_map]
    rfl
  rw [found, met, List.filterMap_map]
  exact List.filterMap_some

/-- The arrangement of gathered nodes shows the coverage of the nesting. -/
theorem shows_arrange {span : Span} {entries : List Entry} {nesting : Grove Entry}
    (ascending : entries.Pairwise fun a b => a.index < b.index)
    (emitted : nesting.labels.Perm entries)
    (within : nesting.Within Entry.span span.start span.stop) (fillGaps : Bool) :
    Shows (arrange fillGaps (gathered span entries (Nesting.parents nesting)))
      (ofNesting span fillGaps nesting) := by
  have gathers := gathered_parents span ascending emitted
  have distinct := nodup_slots emitted (Entry.nodup_of_ascending ascending)
  rw [Grove.labels_tree, Grove.labels_map] at distinct
  have progress := progress_arrange fillGaps gathers.named
    (gathers.preorder.nodup_iff.mpr distinct)
  constructor
  case root => exact progress.root.trans gathers.root
  case parent =>
    have filled : top < (gathered span entries (Nesting.parents nesting)).size := by
      rw [gathers.size]
      exact Nat.succ_pos _
    exact (progress.outer top filled).2.trans gathers.file.2
  case unfolds =>
    exact unfolds_tree within (gathers.stands_file.settles gathers.named progress)
      (gathers.families_stands.imp fun _ _ stands => stands.settles gathers.named progress)
  case nodeCount => exact gathers.size_eq within progress emitted
  case fragmentCount => exact gathers.fragments_eq within progress

/-- What is built is what admission lets through, swept, gathered and arranged. -/
theorem snd_build (tags : List Tag) (span : Span) (options : Coverage.Options) :
    (build tags span options).2 =
      (Coverage.admission span options.degenerate (Entry.numbered 0 tags)).2.bind fun admitted =>
        (Sweep.tightest admitted).map fun parents =>
          arrange options.fillGaps (gathered span admitted parents) := by
  show (_ >>= fun admitted => Sweep.tightest admitted >>= _) = _
  refine congrArg _ (funext fun admitted => ?_)
  cases Sweep.tightest admitted <;> rfl

/-- A coverage that is put together in a node store is the coverage that is built from the same
tags, with the same warnings, or both fail alike. -/
theorem build_shows (tags : List Tag) (span : Span) (options : Coverage.Options) :
    (build tags span options).1 = (Coverage.build tags span options).1 ∧
      ((∃ error, (build tags span options).2 = .error error ∧
          (Coverage.build tags span options).2 = .error error) ∨
        ∃ linked coverage, (build tags span options).2 = .ok linked ∧
          (Coverage.build tags span options).2 = .ok coverage ∧ Shows linked coverage) := by
  refine ⟨rfl, ?_⟩
  rw [snd_build, Coverage.snd_build]
  cases admits : (Coverage.admission span options.degenerate (Entry.numbered 0 tags)).2 with
  | error error => exact .inl ⟨error, rfl, rfl⟩
  | ok admitted =>
    obtain ⟨members, -⟩ := Coverage.of_admission admits
    have ascending : admitted.Pairwise fun a b => a.index < b.index :=
      members ▸ (Entry.pairwise_index_numbered 0 tags).filter _
    show (∃ error, (Sweep.tightest admitted).map _ = .error error ∧
      (Nesting.ofEntries admitted).map _ = .error error) ∨ ∃ linked coverage,
        (Sweep.tightest admitted).map _ = .ok linked ∧
          (Nesting.ofEntries admitted).map _ = .ok coverage ∧ Shows linked coverage
    rw [Sweep.tightest_eq ascending]
    cases nested : Nesting.ofEntries admitted with
    | error error => exact .inl ⟨error, rfl, rfl⟩
    | ok nesting =>
      have nests := Coverage.nests_of_admission admits nested
      have emitted : nesting.labels.Perm admitted := by
        rw [nests.labels, members]
        exact List.mergeSort_perm _ _
      exact .inr ⟨_, _, rfl, rfl, shows_arrange ascending emitted nests.within options.fillGaps⟩

end Laminar.LinkedCoverage
