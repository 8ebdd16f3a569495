import Mathlib.Data.List.Perm.Subperm
import Laminar.NodeStore.Walk
import Laminar.Proofs.NodeStore.Trees

/-!
# Ways up

The way up from a node follows the parents that the nodes name (`Ascends`). It visits no slot twice,
so the walk along the parent links has room for all of it (`Ascends.ancestors?_eq`). A node that is
put between some nodes and the parent that they have named (`Interposed`) is above these nodes and
what is below them, and below what was above them. Which of two other nodes is above which does not
change (`Interposed.isAbove_iff`).
-/

namespace Laminar.NodeStore

variable {α : Type} {store after : NodeStore α} {slot : Slot} {above : List Slot}

/-- Different slots with nodes are no more than the nodes. -/
theorem length_le_size_of_nodup {slots : List Slot} (distinct : slots.Nodup)
    (present : ∀ slot ∈ slots, slot < store.size) : slots.length ≤ store.size := by
  have within : slots ⊆ List.range store.size :=
    fun slot listed => List.mem_range.mpr (present slot listed)
  have fewer := (List.subperm_of_subset distinct within).length_le
  rwa [List.length_range] at fewer

/-- The slots on the way up from a node to one that names no parent, the nearest first. -/
inductive Ascends (store : NodeStore α) : Slot → List Slot → Prop
  /-- The node names no parent. -/
  | last {slot : Slot} (present : slot < store.size) (ends : store.parent? slot = none) :
      Ascends store slot []
  /-- The way goes on from the parent. -/
  | up {slot parent : Slot} {above : List Slot} (named : store.parent? slot = some parent)
      (higher : Ascends store parent above) : Ascends store slot (parent :: above)

namespace Ascends

/-- A way up begins at a node. -/
theorem lt_size (ascends : Ascends store slot above) : slot < store.size := by
  cases ascends with
  | last present => exact present
  | up named => exact lt_size_of_parent? named

/-- The way up begins with the parent that the node names. -/
theorem parent?_eq (ascends : Ascends store slot above) : store.parent? slot = above.head? := by
  cases ascends with
  | last _ ends => exact ends
  | up named => exact named

/-- There is one way up from a node. -/
theorem unique {other : List Slot} (ascends : Ascends store slot above)
    (again : Ascends store slot other) : above = other := by
  induction ascends generalizing other with
  | last _ ends =>
    cases again with
    | last => rfl
    | up named => exact absurd (ends.symm.trans named) (by simp)
  | up named _ later =>
    cases again with
    | last _ ends => exact absurd (ends.symm.trans named) (by simp)
    | up same higher =>
      obtain rfl := Option.some.inj (named.symm.trans same)
      rw [later higher]

/-- From a node on the way, the rest of the way leads up. -/
theorem of_append {near far : List Slot} {middle : Slot}
    (ascends : Ascends store slot (near ++ middle :: far)) : Ascends store middle far := by
  induction near generalizing slot with
  | nil =>
    cases ascends with
    | up _ higher => exact higher
  | cons _ _ later =>
    cases ascends with
    | up _ higher => exact later higher

/-- No way up comes back to where it began. -/
theorem not_mem (ascends : Ascends store slot above) : slot ∉ above := by
  intro again
  obtain ⟨near, far, split⟩ := List.append_of_mem again
  have shorter : Ascends store slot far := by
    rw [split] at ascends
    exact ascends.of_append
  have same := congrArg List.length ((ascends.unique shorter).symm.trans split)
  rw [List.length_append, List.length_cons] at same
  omega

/-- A way up comes to no node twice. -/
theorem nodup (ascends : Ascends store slot above) : above.Nodup := by
  induction ascends with
  | last => exact List.nodup_nil
  | up _ higher distinct => exact List.nodup_cons.mpr ⟨higher.not_mem, distinct⟩

/-- A way up leads over nodes. -/
theorem forall_lt_size (ascends : Ascends store slot above) :
    ∀ outer ∈ above, outer < store.size := by
  induction ascends with
  | last => simp
  | up _ higher present => exact List.forall_mem_cons.mpr ⟨higher.lt_size, present⟩

/-- A way up has no more slots than there are nodes. -/
theorem length_le_size (ascends : Ascends store slot above) : above.length ≤ store.size :=
  length_le_size_of_nodup ascends.nodup ascends.forall_lt_size

/-- A walk along the parent links that has room for the way up finds all of it. -/
theorem ancestorsWithin?_eq (ascends : Ascends store slot above) {levels : Nat}
    (enough : above.length < levels) : store.ancestorsWithin? levels slot = some above := by
  induction ascends generalizing levels with
  | @last slot present ends =>
    obtain ⟨levels, rfl⟩ : ∃ fewer, levels = fewer + 1 := ⟨levels - 1, by omega⟩
    obtain ⟨node, here⟩ : ∃ node, store.node? slot = some node :=
      ⟨_, Array.getElem?_eq_getElem present⟩
    have none : node.parent = none := by simpa [parent?, here] using ends
    simp [ancestorsWithin?, here, none]
  | @up slot parent above named _ later =>
    rw [List.length_cons] at enough
    obtain ⟨levels, rfl⟩ : ∃ fewer, levels = fewer + 1 := ⟨levels - 1, by omega⟩
    obtain ⟨node, here, names⟩ := Option.bind_eq_some_iff.mp named
    have rest := later (by omega : above.length < levels)
    simp [ancestorsWithin?, here, names, rest]

/-- The walk along the parent links finds the whole way up. -/
theorem ancestors?_eq (ascends : Ascends store slot above) : store.ancestors? slot = some above :=
  ascends.ancestorsWithin?_eq (Nat.lt_succ_of_le ascends.length_le_size)

end Ascends

/-- The node in one slot is on the way up from the node in another. -/
def IsAbove (store : NodeStore α) (outer inner : Slot) : Prop :=
  ∃ above, store.ancestors? inner = some above ∧ outer ∈ above

/-- Above a node are those on its way up. -/
theorem Ascends.isAbove_iff (ascends : Ascends store slot above) (outer : Slot) :
    store.IsAbove outer slot ↔ outer ∈ above := by
  constructor
  · rintro ⟨found, walked, listed⟩
    obtain rfl := Option.some.inj (ascends.ancestors?_eq.symm.trans walked)
    exact listed
  · exact fun listed => ⟨above, ascends.ancestors?_eq, listed⟩

/-- Nothing is above a slot that has no node. -/
theorem not_isAbove_of_absent {inner : Slot} (absent : store.size ≤ inner) (outer : Slot) :
    ¬ store.IsAbove outer inner := by
  rintro ⟨above, walked, -⟩
  have missing : store.node? inner = none := Array.getElem?_eq_none absent
  simp [ancestors?, ancestorsWithin?, missing] at walked

/-- From every node there is a way up. -/
def Grounded (store : NodeStore α) : Prop :=
  ∀ slot < store.size, ∃ above, store.Ascends slot above

/-- No node names itself as its parent. -/
theorem Grounded.parent?_ne (grounded : store.Grounded) (slot : Slot) :
    store.parent? slot ≠ some slot := by
  intro itself
  obtain ⟨above, ascends⟩ := grounded slot (lt_size_of_parent? itself)
  exact (Ascends.up itself ascends).not_mem List.mem_cons_self

/-- Above a node are its parent and what is above the parent. -/
theorem Grounded.isAbove_iff_parent? (grounded : store.Grounded) (present : slot < store.size)
    (outer : Slot) :
    store.IsAbove outer slot ↔
      ∃ parent ∈ store.parent? slot, outer = parent ∨ store.IsAbove outer parent := by
  obtain ⟨above, ascends⟩ := grounded slot present
  rw [ascends.isAbove_iff]
  cases ascends with
  | last _ ends => simp [ends]
  | up named higher => simp [named, higher.isAbove_iff]

/-! ## A node in between -/

/-- A new node has come between some nodes and the parent that they have named. All other nodes name
the parents that they have named before. -/
structure Interposed (store after : NodeStore α) (outer : Option Slot) (taken : List Slot) :
    Prop where
  /-- The node is in the next slot. -/
  size : after.size = store.size + 1
  /-- The new node names the parent, if there is one. -/
  parent : after.parent? store.size = outer
  /-- The parent is an old node. -/
  old : ∀ parent ∈ outer, parent < store.size
  /-- The nodes below have named the parent. -/
  before : ∀ child ∈ taken, child < store.size ∧ store.parent? child = outer
  /-- They name the new node now. -/
  moved : ∀ child ∈ taken, after.parent? child = some store.size
  /-- Nothing else has changed. -/
  others : ∀ slot, slot ≠ store.size → slot ∉ taken → after.parent? slot = store.parent? slot

namespace Interposed

variable {outer : Option Slot} {taken : List Slot}
  (interposed : Interposed store after outer taken)

include interposed

/-- On a way up, the new node comes just above the first of the nodes that it was put above, and
the others stay as they are. -/
theorem ascends (ascends : Ascends store slot above) :
    ∃ grown, Ascends after slot grown ∧ grown.filter (· ≠ store.size) = above ∧
      (store.size ∈ grown ↔ ∃ child ∈ taken, child = slot ∨ child ∈ above) := by
  have next : store.size < after.size := by rw [interposed.size]; exact Nat.lt_succ_self _
  induction ascends with
  | @last slot present ends =>
    by_cases below : slot ∈ taken
    · have top : outer = none := (interposed.before slot below).2.symm.trans ends
      have way : Ascends after slot [store.size] :=
        .up (interposed.moved slot below) (.last next (interposed.parent.trans top))
      exact ⟨_, way, by simp, by simpa using below⟩
    · have same := interposed.others slot (Nat.ne_of_lt present) below
      have still : slot < after.size := Nat.lt_trans present next
      exact ⟨[], .last still (same.trans ends), rfl, by simpa using below⟩
  | @up slot parent above named higher later =>
    obtain ⟨grown, way, rest, new⟩ := later
    have old : parent ≠ store.size := Nat.ne_of_lt higher.lt_size
    have kept : (parent :: grown).filter (· ≠ store.size) = parent :: above := by
      rw [List.filter_cons_of_pos (by simpa using old), rest]
    by_cases below : slot ∈ taken
    · have upper : outer = some parent := (interposed.before slot below).2.symm.trans named
      have between : Ascends after store.size (parent :: grown) :=
        .up (interposed.parent.trans upper) way
      refine ⟨_, .up (interposed.moved slot below) between, ?_, ?_⟩
      · rw [List.filter_cons_of_neg (by simp), kept]
      · exact iff_of_true List.mem_cons_self ⟨slot, below, .inl rfl⟩
    · have different := Nat.ne_of_lt (lt_size_of_parent? named)
      have same := interposed.others slot different below
      refine ⟨_, .up (same.trans named) way, kept, ?_⟩
      rw [List.mem_cons, or_iff_right old.symm, new]
      refine exists_congr fun child => and_congr_right fun listed => ?_
      have other : child ≠ slot := by
        rintro rfl
        exact below listed
      rw [or_iff_right other, List.mem_cons]

variable (grounded : store.Grounded)

include grounded

/-- Of the other nodes the same ones are above each other as before. -/
theorem isAbove_iff {upper lower : Slot} (upper_old : upper ≠ store.size)
    (lower_old : lower ≠ store.size) : after.IsAbove upper lower ↔ store.IsAbove upper lower := by
  by_cases present : lower < store.size
  · obtain ⟨above, way⟩ := grounded lower present
    obtain ⟨grown, longer, rest, -⟩ := interposed.ascends way
    rw [longer.isAbove_iff, way.isAbove_iff, ← rest]
    simp [upper_old]
  · have absent : store.size ≤ lower := Nat.not_lt.mp present
    have still : after.size ≤ lower := by
      rw [interposed.size]
      exact Nat.lt_of_le_of_ne absent lower_old.symm
    exact iff_of_false (not_isAbove_of_absent still upper) (not_isAbove_of_absent absent upper)

/-- Above the new node are the parent and what is above the parent. The new node is not above
itself, so nothing has come between the old ones. -/
theorem isAbove_new_iff (upper : Slot) :
    after.IsAbove upper store.size ↔
      ∃ parent ∈ outer, upper = parent ∨ store.IsAbove upper parent := by
  cases named : outer with
  | none =>
    have present : store.size < after.size := by rw [interposed.size]; exact Nat.lt_succ_self _
    have way : Ascends after store.size [] := .last present (interposed.parent.trans named)
    rw [way.isAbove_iff]
    simp
  | some parent =>
    obtain ⟨above, way⟩ := grounded parent (interposed.old parent named)
    obtain ⟨grown, longer, rest, -⟩ := interposed.ascends way
    have whole : Ascends after store.size (parent :: grown) :=
      .up (interposed.parent.trans named) longer
    have apart : ∀ slot ∈ grown, slot ≠ store.size := by
      rintro slot listed rfl
      exact whole.not_mem (List.mem_cons_of_mem parent listed)
    have same : grown = above := by
      rw [← rest, List.filter_eq_self.mpr (by simpa using apart)]
    rw [whole.isAbove_iff, same]
    simp [way.isAbove_iff]

/-- Below the new node are the nodes that it was put above and what is below these. -/
theorem new_isAbove_iff (lower : Slot) :
    after.IsAbove store.size lower ↔
      ∃ child ∈ taken, child = lower ∨ store.IsAbove child lower := by
  by_cases present : lower < store.size
  · obtain ⟨above, way⟩ := grounded lower present
    obtain ⟨grown, longer, -, new⟩ := interposed.ascends way
    rw [longer.isAbove_iff, new]
    simp only [way.isAbove_iff]
  · have absent : store.size ≤ lower := Nat.not_lt.mp present
    refine iff_of_false ?_ ?_
    · by_cases itself : lower = store.size
      · subst itself
        rw [interposed.isAbove_new_iff grounded]
        rintro ⟨parent, named, same | higher⟩
        · exact Nat.lt_irrefl _ (same ▸ interposed.old parent named)
        · obtain ⟨above, way⟩ := grounded parent (interposed.old parent named)
          have listed := (way.isAbove_iff _).mp higher
          exact Nat.lt_irrefl _ (way.forall_lt_size _ listed)
      · refine not_isAbove_of_absent ?_ _
        rw [interposed.size]
        exact Nat.lt_of_le_of_ne absent (Ne.symm itself)
    · rintro ⟨child, listed, same | higher⟩
      · exact Nat.not_le.mpr (interposed.before child listed).1 (same ▸ absent)
      · exact not_isAbove_of_absent absent child higher

end Interposed

end Laminar.NodeStore
