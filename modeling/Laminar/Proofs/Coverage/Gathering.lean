import Laminar.Coverage.Linked
import Laminar.Proofs.Grove.Numbering
import Laminar.Proofs.Nesting.Enclosers
import Laminar.Proofs.NodeStore.Walk

/-!
# Entries gathered below their parents

The parents of a nesting name an adoption for each of its links, so once the nodes for a file and
its entries are gathered, their links are those of the nesting below the file (`gathered_parents`).
Only the order of the children is still that of emission. A walk meets each node once.
-/

namespace Laminar.LinkedCoverage

open Coverage (Segment)
open NodeStore (label? parent?)

/-- The slot of the node for an entry. -/
def slotOf (entries : List Entry) (entry : Entry) : Slot :=
  entries.idxOf entry + 1

/-! ## Nodes without links -/

/-- There is a node for the file and one for each entry. -/
theorem size_scattered (span : Span) (entries : List Entry) :
    (scattered span entries).size = entries.length + 1 := by
  rw [scattered, NodeStore.size_addEach, NodeStore.size_add, List.length_map, Nat.add_comm]
  rfl

/-- The first node is the file's and has no links. -/
theorem node?_scattered_top (span : Span) (entries : List Entry) :
    (scattered span entries).node? top = some ⟨.file span, none, []⟩ := by
  rw [scattered, NodeStore.node?_addEach, if_pos (by rw [NodeStore.size_add]; exact Nat.succ_pos _)]
  rfl

/-- The node for an entry comes one slot after its place and has no links. -/
theorem node?_scattered_succ (span : Span) (entries : List Entry) (place : Nat) :
    (scattered span entries).node? (place + 1) =
      entries[place]?.map fun entry => ⟨.ofEntry entry, none, []⟩ := by
  have first : (NodeStore.empty.add (Segment.file span) none).size = 1 := NodeStore.size_add ..
  have past : ¬ place + 1 < 1 := Nat.not_lt.mpr (Nat.succ_le_succ (Nat.zero_le place))
  rw [scattered, NodeStore.node?_addEach, first, if_neg past, Nat.add_sub_cancel,
    List.getElem?_map, Option.map_map]
  rfl

/-- No node has links at first. -/
theorem bare_scattered (span : Span) (entries : List Entry) (slot : Slot) (node : Node Segment)
    (found : (scattered span entries).node? slot = some node) :
    node.parent = none ∧ node.children = [] := by
  cases slot with
  | zero =>
    obtain rfl := Option.some.inj ((node?_scattered_top span entries).symm.trans found)
    exact ⟨rfl, rfl⟩
  | succ place =>
    rw [node?_scattered_succ] at found
    obtain ⟨entry, -, rfl⟩ := Option.map_eq_some_iff.mp found
    exact ⟨rfl, rfl⟩

section Gathered

variable {entries : List Entry}

/-- A listed entry is found at its place in the list. -/
theorem getElem?_idxOf {entry : Entry} (present : entry ∈ entries) :
    entries[entries.idxOf entry]? = some entry := by
  rw [List.getElem?_eq_getElem (List.idxOf_lt_length_of_mem present), List.getElem_idxOf]

/-- Different entries have different slots. -/
theorem slotOf_inj {a b : Entry} (left : a ∈ entries) (right : b ∈ entries)
    (same : slotOf entries a = slotOf entries b) : a = b := by
  have place : entries.idxOf a = entries.idxOf b := Nat.succ.inj same
  have first := getElem?_idxOf left
  rw [place, getElem?_idxOf right] at first
  exact (Option.some.inj first).symm

variable (ascending : entries.Pairwise fun a b => a.index < b.index)

include ascending

/-- The node for an entry is found by its place in the order of emission. -/
theorem slot?_eq {entry : Entry} (present : entry ∈ entries) :
    slot? entries entry.index = some (slotOf entries entry) := by
  have found : (entries.findIdx? fun other => other.index = entry.index) =
      some (entries.idxOf entry) := by
    rw [List.findIdx?_eq_some_iff_getElem]
    refine ⟨List.idxOf_lt_length_of_mem present,
      by rw [List.getElem_idxOf]; exact decide_eq_true rfl, fun earlier before => ?_⟩
    have first := List.pairwise_iff_getElem.mp ascending earlier (entries.idxOf entry)
      (Nat.lt_trans before (List.idxOf_lt_length_of_mem present))
      (List.idxOf_lt_length_of_mem present) before
    rw [List.getElem_idxOf] at first
    simpa using Nat.ne_of_lt first
  rw [slot?, found]
  rfl

variable {nesting : Grove Entry} (emitted : nesting.labels.Perm entries)

include emitted

/-- The adoptions are the links of the nesting, in the order of emission. -/
theorem adoptions_parents :
    adoptions entries (Nesting.parents nesting) =
      (nesting.links.mergeSort Nesting.byEmission).map fun link =>
        ((link.2.map (slotOf entries)).getD top, slotOf entries link.1) := by
  have lower := Nesting.map_fst_mergeSort_links emitted ascending
  have zipped : entries.zip (Nesting.parents nesting) =
      (nesting.links.mergeSort Nesting.byEmission).map fun link =>
        (link.1, link.2.map Entry.index) := by
    calc entries.zip (Nesting.parents nesting)
      _ = ((nesting.links.mergeSort Nesting.byEmission).map Prod.fst).zip
          ((nesting.links.mergeSort Nesting.byEmission).map fun link =>
            link.2.map Entry.index) := by rw [lower]; rfl
      _ = _ := List.zip_map' ..
  rw [adoptions, zipped, List.filterMap_map, ← List.filterMap_eq_map]
  refine List.filterMap_congr fun link linked => ?_
  have linked := List.mem_mergeSort.mp linked
  have present : link.1 ∈ entries := by
    rw [← emitted.mem_iff, ← Grove.map_fst_links]
    exact List.mem_map_of_mem linked
  have above : (link.2.map Entry.index).bind (slot? entries) = link.2.map (slotOf entries) := by
    cases upper : link.2 with
    | none => rfl
    | some outer =>
      have outer_present := emitted.mem_iff.mp (Grove.mem_labels_of_mem_links linked upper)
      exact slot?_eq ascending outer_present
  show (slot? entries link.1.index).map (fun slot =>
    (((link.2.map Entry.index).bind (slot? entries)).getD top, slot)) = _
  rw [slot?_eq ascending present, above]
  rfl

/-- In any order, these are the links of the slots of the nesting. -/
theorem adoptions_perm :
    (adoptions entries (Nesting.parents nesting)).Perm
      ((nesting.map (slotOf entries)).links.map fun link => (link.2.getD top, link.1)) := by
  rw [adoptions_parents ascending emitted, Grove.links_map, List.map_map]
  exact (List.mergeSort_perm _ _).map _

omit ascending in
/-- The slots of the file and of the entries are distinct. -/
theorem nodup_slots (distinct : entries.Nodup) :
    (Grove.tree top (nesting.map (slotOf entries))).labels.Nodup := by
  rw [Grove.labels_tree, Grove.labels_map, List.nodup_cons]
  constructor
  · intro present
    obtain ⟨entry, -, same⟩ := List.mem_map.mp present
    exact absurd same (Nat.succ_ne_zero _)
  · refine List.Nodup.map_on ?_ (emitted.nodup_iff.mpr distinct)
    intro a left b right same
    exact slotOf_inj (emitted.mem_iff.mp left) (emitted.mem_iff.mp right) same

omit ascending in
/-- Each of these slots has a node. -/
theorem lt_size_scattered (span : Span) :
    ∀ slot ∈ (Grove.tree top (nesting.map (slotOf entries))).labels,
      slot < (scattered span entries).size := by
  rw [Grove.labels_tree, Grove.labels_map, size_scattered, List.forall_mem_cons,
    List.forall_mem_map]
  refine ⟨Nat.succ_pos _, fun entry present => ?_⟩
  exact Nat.succ_lt_succ (List.idxOf_lt_length_of_mem (emitted.mem_iff.mp present))

end Gathered

/-- The nodes for a file and its entries are linked as a nesting of the entries says. -/
structure Gathered (span : Span) (entries : List Entry) (nesting : Grove Entry)
    (store : NodeStore Segment) : Prop where
  /-- The file's node is the root. -/
  root : store.root = some top
  /-- There are no other nodes. -/
  size : store.size = entries.length + 1
  /-- The file's node has the label of the file, and no parent. -/
  file : store.label? top = some (.file span) ∧ store.parent? top = none
  /-- Each entry has its node. -/
  labels : ∀ entry ∈ nesting.labels, store.label? (slotOf entries entry) = some (.ofEntry entry)
  /-- The links are those of the nesting below the file, in any order. -/
  links : store.Links (.tree top (nesting.map (slotOf entries)))
  /-- Every child names the node above it, which is another one. -/
  named : ∀ slot, ∀ child ∈ store.children slot, store.parent? child = some slot ∧ child ≠ slot
  /-- A walk meets every node once. -/
  preorder : store.preorder.Perm (top :: nesting.labels.map (slotOf entries))

/-- The parents of a nesting gather the nodes for its entries as it says. -/
theorem gathered_parents (span : Span) {entries : List Entry} {nesting : Grove Entry}
    (ascending : entries.Pairwise fun a b => a.index < b.index)
    (emitted : nesting.labels.Perm entries) :
    Gathered span entries nesting (gathered span entries (Nesting.parents nesting)) := by
  have distinct := nodup_slots emitted (Entry.nodup_of_ascending ascending)
  have pairs := adoptions_perm ascending emitted
  have node := NodeStore.node?_adoptEach (scattered span entries)
    (NodeStore.fst_ne_snd_of_mem_pairs distinct pairs) (NodeStore.nodup_snd_pairs distinct pairs)
  have links := NodeStore.links_adoptEach distinct pairs (bare_scattered span entries)
    (lt_size_scattered emitted span)
  have root : (gathered span entries (Nesting.parents nesting)).root = some top := by
    rw [gathered, NodeStore.root_adoptEach, scattered, NodeStore.root_addEach]
    rfl
  have size : (gathered span entries (Nesting.parents nesting)).size = entries.length + 1 := by
    rw [gathered, NodeStore.size_adoptEach, size_scattered]
  constructor
  case root => exact root
  case size => exact size
  case file =>
    refine ⟨?_, NodeStore.parent?_adoptEach_root distinct pairs (bare_scattered span entries)⟩
    rw [label?, gathered, node, node?_scattered_top]
    rfl
  case labels =>
    intro entry present
    have found := getElem?_idxOf (emitted.mem_iff.mp present)
    rw [label?, gathered, node, slotOf, node?_scattered_succ, found]
    rfl
  case links => exact links
  case named =>
    exact NodeStore.named_adoptEach distinct pairs (bare_scattered span entries)
      (lt_size_scattered emitted span)
  case preorder =>
    have met := links.preorder_perm root (by
      show (Grove.tree top (nesting.map (slotOf entries))).size ≤
        (gathered span entries (Nesting.parents nesting)).size
      rw [size, ← Grove.length_labels, Grove.labels_tree, Grove.labels_map, List.length_cons,
        List.length_map, emitted.length_eq])
    rw [Grove.labels_map] at met
    exact met

end Laminar.LinkedCoverage
