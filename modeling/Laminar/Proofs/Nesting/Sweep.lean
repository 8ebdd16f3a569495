import Mathlib.Data.List.TakeWhile
import Laminar.Nesting.Sweep
import Laminar.Proofs.Grove.Links
import Laminar.Proofs.Nesting.Enclosers

/-!
# Sweeps and nestings

A sweep meets the links of a nesting, each when its lower entry begins. While entries are open, the
links still to come are those of the entries that begin before the innermost one ends, grouped below
it, then of those that begin before the next one ends, and so on (`pending`). To open an entry takes
the first of these links and leaves the others (`pending_beside`, `pending_below`). So a sweep fails
at the first crossing of the nesting and otherwise finds its parents (`tightest_eq`).
-/

namespace Laminar

/-! ## The first members of a list -/

section While

variable {α : Type} {p q : α → Bool} (implies : ∀ x, p x = true → q x = true)

include implies

/-- Of the first members by a weaker condition, the first by the stronger one are the first of all.
-/
theorem takeWhile_takeWhile_of_implies (list : List α) :
    (list.takeWhile q).takeWhile p = list.takeWhile p := by
  rw [List.takeWhile_takeWhile]
  refine congrArg (List.takeWhile · list) (funext fun x => ?_)
  cases first : p x with
  | false => simp
  | true => simp [implies x first]

/-- The first members by the stronger condition may be dropped before those by the weaker one are
taken or afterwards. -/
theorem dropWhile_takeWhile_of_implies (list : List α) :
    (list.takeWhile q).dropWhile p = (list.dropWhile p).takeWhile q := by
  induction list with
  | nil => rfl
  | cons x rest later =>
    by_cases first : p x = true
    · rw [List.takeWhile_cons_of_pos (implies x first), List.dropWhile_cons_of_pos first,
        List.dropWhile_cons_of_pos first, later]
    · rw [List.dropWhile_cons_of_neg first]
      by_cases second : q x = true
      · rw [List.takeWhile_cons_of_pos second, List.dropWhile_cons_of_neg first]
      · rw [List.takeWhile_cons_of_neg second, List.dropWhile_nil]

/-- Where the first members by the weaker condition are dropped, those by the stronger one are
dropped with them. -/
theorem dropWhile_dropWhile_of_implies (list : List α) :
    (list.dropWhile p).dropWhile q = list.dropWhile q := by
  induction list with
  | nil => rfl
  | cons x rest later =>
    by_cases first : p x = true
    · rw [List.dropWhile_cons_of_pos first, List.dropWhile_cons_of_pos (implies x first), later]
    · rw [List.dropWhile_cons_of_neg first]

end While

namespace Sweep

open Nesting (group firstCrossing? byEmission)

/-! ## The links to come -/

/-- The links of a grove that hangs below an entry. -/
def hang (top : Entry) (links : List (Entry × Option Entry)) : List (Entry × Option Entry) :=
  links.map fun link => (link.1, some (link.2.getD top))

/-- A tree and the trees beside it, all below an entry. -/
theorem hang_node (top entry : Entry) (below beside : List (Entry × Option Entry)) :
    hang top ((entry, none) :: hang entry below ++ beside) =
      (entry, some top) :: hang entry below ++ hang top beside := by
  have inner : hang top (hang entry below) = hang entry below := by
    rw [hang, hang, List.map_map]
    rfl
  rw [hang, List.map_append, List.map_cons, ← hang, ← hang, inner]
  rfl

/-- The links of a tree and of the trees beside it, where those below the tree hang on its top. -/
theorem links_node (entry : Entry) (below beside : Grove Entry) :
    (Grove.node entry below beside).links =
      (entry, none) :: hang entry below.links ++ beside.links :=
  Grove.links_node entry below beside

/-- One entry begins before another ends. -/
def beginsBefore (outer : Entry) (entry : Entry) : Bool :=
  entry.span.start < outer.span.stop

/-- The links of sorted entries that have not begun, while some are open. -/
def pending : List Entry → List Entry → List (Entry × Option Entry)
  | [], rest => (group rest).links
  | top :: outer, rest =>
    hang top (group (rest.takeWhile (beginsBefore top))).links ++
      pending outer (rest.dropWhile (beginsBefore top))

/-- The first entry is above those after it up to the first that begins no earlier than it ends, and
the rest come beside it. -/
theorem group_cons (entry : Entry) (rest : List Entry) :
    group (entry :: rest) = .node entry (group (rest.takeWhile (beginsBefore entry)))
      (group (rest.dropWhile (beginsBefore entry))) := by
  rw [group]
  rfl

/-- With no entries to come there are no links to come. -/
theorem pending_nil (opened : List Entry) : pending opened [] = [] := by
  have none : (group []).links = [] := by
    rw [group]
    rfl
  induction opened with
  | nil => exact none
  | cons top outer later =>
    rw [pending, List.takeWhile_nil, List.dropWhile_nil, none, later]
    rfl

/-- What ended before an entry begins has no part in the links to come. -/
theorem pending_stillOpen (sweep : Sweep) (entry : Entry) (rest : List Entry) :
    pending (sweep.stillOpen entry) (entry :: rest) = pending sweep.opened (entry :: rest) := by
  rw [stillOpen]
  induction sweep.opened with
  | nil => rfl
  | cons top outer later =>
    by_cases ended : top.span.stop ≤ entry.span.start
    · have after : ¬ beginsBefore top entry = true := by
        rw [beginsBefore, decide_eq_true_eq]
        exact UInt64.not_lt.mpr ended
      rw [List.dropWhile_cons, if_pos (decide_eq_true ended), later, pending,
        List.takeWhile_cons_of_neg after, List.dropWhile_cons_of_neg after, group]
      rfl
    · rw [List.dropWhile_cons, if_neg fun holds => ended (of_decide_eq_true holds)]

/-- An entry that begins while none is open has no parent. -/
theorem pending_beside (entry : Entry) (rest : List Entry) :
    pending [] (entry :: rest) = (entry, none) :: pending [entry] rest := by
  rw [pending, group_cons, links_node]
  rfl

/-- An entry that begins before the innermost open one ends is the next to be linked. -/
theorem pending_cons (top : Entry) (outer : List Entry) {entry : Entry} (rest : List Entry)
    (begins : entry.span.start < top.span.stop) :
    ∃ later, pending (top :: outer) (entry :: rest) = (entry, some top) :: later := by
  have first : beginsBefore top entry = true := decide_eq_true begins
  rw [pending, List.takeWhile_cons_of_pos first, group_cons, links_node]
  exact ⟨_, rfl⟩

/-- An entry that ends no later than the innermost open one is opened below it. -/
theorem pending_below (top : Entry) (outer : List Entry) {entry : Entry} (rest : List Entry)
    (begins : entry.span.start < top.span.stop) (ends : entry.span.stop ≤ top.span.stop) :
    pending (top :: outer) (entry :: rest) =
      (entry, some top) :: pending (entry :: top :: outer) rest := by
  have implies : ∀ other, beginsBefore entry other = true → beginsBefore top other = true := by
    intro other first
    simp only [beginsBefore, decide_eq_true_eq] at *
    exact UInt64.lt_of_lt_of_le first ends
  have first : beginsBefore top entry = true := decide_eq_true begins
  rw [pending, List.takeWhile_cons_of_pos first, List.dropWhile_cons_of_pos first, group_cons,
    links_node, hang_node, takeWhile_takeWhile_of_implies implies,
    dropWhile_takeWhile_of_implies implies, pending, pending,
    dropWhile_dropWhile_of_implies implies, List.cons_append, List.cons_append, List.append_assoc]

/-! ## The run -/

/-- The crossing that a link shows, if the lower entry is not enclosed by the upper one. -/
def crossing? (link : Entry × Option Entry) : Option (Entry × Entry) :=
  link.2.bind fun outer => if outer.span.Encloses link.1.span then none else some (outer, link.1)

/-- The first crossing of a nesting is the first that a link shows. -/
theorem firstCrossing?_eq (g : Grove Entry) : firstCrossing? g = g.links.findSome? crossing? := by
  refine congrArg (List.findSome? · g.links) (funext fun link => ?_)
  obtain ⟨inner, above⟩ := link
  cases above <;> rfl

/-- The parents with those that links give to the entries of some places. -/
def noted (parents : List (Option Nat)) : List ((Entry × Option Entry) × Nat) → List (Option Nat)
  | [] => parents
  | ((_, none), _) :: rest => noted parents rest
  | ((_, some outer), place) :: rest => noted (parents.set place (some outer.index)) rest

/-- A sweep fails at the first crossing among the links to come, and otherwise notes the parents. -/
theorem run_eq (sweep : Sweep) (members : List (Entry × Nat)) :
    (sweep.run members).map Sweep.parents =
      match (pending sweep.opened (members.map Prod.fst)).findSome? crossing? with
      | some (outer, inner) => .error (.crossing outer.tag inner.tag)
      | none => .ok (noted sweep.parents
          ((pending sweep.opened (members.map Prod.fst)).zip (members.map Prod.snd))) := by
  induction members generalizing sweep with
  | nil =>
    rw [List.map_nil, pending_nil]
    rfl
  | cons member rest later =>
    obtain ⟨entry, place⟩ := member
    rw [List.map_cons, List.map_cons, ← pending_stillOpen]
    cases still : sweep.stillOpen entry with
    | nil =>
      have entered : sweep.enter entry place = .ok { sweep with opened := [entry] } := by
        rw [enter, still]
      have onward := later { sweep with opened := [entry] }
      rw [run, entered, pending_beside]
      exact onward
    | cons outer above =>
      have begins : entry.span.start < outer.span.stop := by
        have head := List.head?_dropWhile_not
          (fun top : Entry => decide (top.span.stop ≤ entry.span.start)) sweep.opened
        rw [← stillOpen, still] at head
        exact UInt64.not_le.mp (of_decide_eq_false head)
      by_cases encloses : outer.span.Encloses entry.span
      · have entered : sweep.enter entry place =
            .ok ⟨entry :: outer :: above, sweep.parents.set place (some outer.index)⟩ := by
          rw [enter, still]
          exact if_pos encloses
        have onward := later ⟨entry :: outer :: above, sweep.parents.set place (some outer.index)⟩
        have enclosed : crossing? (entry, some outer) = none := if_pos encloses
        rw [run, entered, pending_below outer above _ begins encloses.2, List.findSome?_cons,
          enclosed]
        exact onward
      · have entered : sweep.enter entry place = .error (.crossing outer.tag entry.tag) := by
          rw [enter, still]
          exact if_neg encloses
        obtain ⟨links, split⟩ := pending_cons outer above (rest.map Prod.fst) begins
        have crosses : crossing? (entry, some outer) = some (outer, entry) := if_neg encloses
        rw [run, entered, split, List.findSome?_cons, crosses]
        rfl

/-! ## The parents -/

/-- Noting parents makes no further places. -/
theorem length_noted (parents : List (Option Nat))
    (members : List ((Entry × Option Entry) × Nat)) :
    (noted parents members).length = parents.length := by
  fun_induction noted parents members with
  | case1 => rfl
  | case2 parents inner place rest later => exact later
  | case3 parents inner outer place rest later => rw [later, List.length_set]

/-- At a place that nothing is noted for, the old parent stays. -/
theorem getElem?_noted_of_not_mem (parents : List (Option Nat))
    {members : List ((Entry × Option Entry) × Nat)} {place : Nat}
    (absent : place ∉ members.map Prod.snd) :
    (noted parents members)[place]? = parents[place]? := by
  fun_induction noted parents members with
  | case1 => rfl
  | case2 parents inner other rest later =>
    exact later fun present => absent (List.mem_cons_of_mem _ present)
  | case3 parents inner outer other rest later =>
    have different : other ≠ place := fun same => absent (same ▸ List.mem_cons_self)
    rw [later fun present => absent (List.mem_cons_of_mem _ present),
      List.getElem?_set_ne different]

/-- What is noted for a place of its own is read back there. -/
theorem getElem?_noted {parents : List (Option Nat)}
    {members : List ((Entry × Option Entry) × Nat)} (distinct : (members.map Prod.snd).Nodup)
    {link : Entry × Option Entry} {place : Nat} (member : (link, place) ∈ members)
    (blank : parents[place]? = some none) :
    (noted parents members)[place]? = some (link.2.map Entry.index) := by
  fun_induction noted parents members with
  | case1 => contradiction
  | case2 parents inner other rest later =>
    obtain ⟨once, distinct⟩ := List.nodup_cons.mp distinct
    rcases List.mem_cons.mp member with same | member
    · obtain ⟨rfl, rfl⟩ := Prod.mk.inj same
      rw [getElem?_noted_of_not_mem parents once, blank]
      rfl
    · exact later distinct member blank
  | case3 parents inner outer other rest later =>
    obtain ⟨once, distinct⟩ := List.nodup_cons.mp distinct
    rcases List.mem_cons.mp member with same | member
    · obtain ⟨rfl, rfl⟩ := Prod.mk.inj same
      rw [getElem?_noted_of_not_mem _ once,
        List.getElem?_set_self (List.getElem?_eq_some_iff.mp blank).1]
      rfl
    · have apart : other ≠ place := by
        rintro rfl
        exact once (List.mem_map.mpr ⟨_, member, rfl⟩)
      exact later distinct member (by rw [List.getElem?_set_ne apart, blank])

/-- Entries are taken in the order of nesting. -/
theorem map_fst_order (entries : List Entry) :
    (order entries).map Prod.fst = entries.mergeSort Entry.comesFirst := by
  have sorted := List.map_mergeSort (r := fun a b : Entry × Nat => a.1.comesFirst b.1)
    (s := Entry.comesFirst) (f := Prod.fst) (l := entries.zipIdx) fun _ _ _ _ => rfl
  rw [order, sorted, List.zipIdx_map_fst]

/-- A place is swept once. -/
theorem nodup_map_snd_order (entries : List Entry) : ((order entries).map Prod.snd).Nodup := by
  have places := (List.mergeSort_perm entries.zipIdx fun a b => a.1.comesFirst b.1).map Prod.snd
  rw [List.zipIdx_map_snd] at places
  exact places.nodup_iff.mpr List.nodup_range'

/-- A link of the entries in their order is noted for the place of its lower entry. -/
theorem mem_zip_order {entries : List Entry} {links : List (Entry × Option Entry)}
    (ordered : links.map Prod.fst = entries.mergeSort Entry.comesFirst) {place : Nat}
    {entry : Entry} (placed : entries[place]? = some entry) :
    ∃ link ∈ links, link.1 = entry ∧ (link, place) ∈ links.zip ((order entries).map Prod.snd) := by
  have swept : (entry, place) ∈ order entries :=
    List.mem_mergeSort.mpr (List.mem_zipIdx_iff_getElem?.mpr placed)
  obtain ⟨turn, taken⟩ := List.mem_iff_getElem?.mp swept
  have lower : (links.map Prod.fst)[turn]? = some entry := by
    rw [ordered, ← map_fst_order, List.getElem?_map, taken]
    rfl
  rw [List.getElem?_map] at lower
  obtain ⟨link, linked, same⟩ := Option.map_eq_some_iff.mp lower
  refine ⟨link, List.mem_of_getElem? linked, same, List.mem_of_getElem? (i := turn) ?_⟩
  rw [List.getElem?_zip_eq_some]
  refine ⟨linked, ?_⟩
  rw [List.getElem?_map, taken]
  rfl

section Nested

variable {entries : List Entry} (ascending : entries.Pairwise fun a b => a.index < b.index)

include ascending

/-- What a sweep notes are the parents of the nesting, in the order of the entries. -/
theorem noted_eq_parents {nesting : Grove Entry}
    (sorted : nesting.labels = entries.mergeSort Entry.comesFirst) :
    noted (entries.map fun _ => none) (nesting.links.zip ((order entries).map Prod.snd)) =
      Nesting.parents nesting := by
  have emitted : nesting.labels.Perm entries := sorted ▸ List.mergeSort_perm _ _
  have listed := Nesting.map_fst_mergeSort_links emitted ascending
  have distinct : (nesting.links.map Prod.fst).Nodup := by
    rw [Grove.map_fst_links]
    exact emitted.nodup_iff.mpr (Entry.nodup_of_ascending ascending)
  have ordered : nesting.links.map Prod.fst = entries.mergeSort Entry.comesFirst := by
    rw [Grove.map_fst_links, sorted]
  have length : nesting.links.length = ((order entries).map Prod.snd).length := by
    rw [List.length_map, ← List.length_map (f := Prod.fst), ordered, ← map_fst_order,
      List.length_map]
  have places : ((nesting.links.zip ((order entries).map Prod.snd)).map Prod.snd).Nodup := by
    rw [List.map_snd_zip (Nat.le_of_eq length.symm)]
    exact nodup_map_snd_order entries
  apply List.ext_getElem?
  intro place
  show _ = ((nesting.links.mergeSort byEmission).map fun link => link.2.map Entry.index)[place]?
  have there := congrArg (·[place]?) listed
  simp only [List.getElem?_map] at there ⊢
  cases placed : entries[place]? with
  | none =>
    rw [placed, Option.map_eq_none_iff] at there
    rw [there, Option.map_none, List.getElem?_eq_none_iff, length_noted, List.length_map]
    exact List.getElem?_eq_none_iff.mp placed
  | some entry =>
    obtain ⟨link, linked, same, member⟩ := mem_zip_order ordered placed
    rw [placed] at there
    obtain ⟨other, found, also⟩ := Option.map_eq_some_iff.mp there
    have present : other ∈ nesting.links := List.mem_mergeSort.mp (List.mem_of_getElem? found)
    obtain rfl : other = link :=
      List.inj_on_of_nodup_map distinct present linked (also.trans same.symm)
    rw [found]
    apply getElem?_noted places member
    rw [List.getElem?_map, placed]
    rfl

/-- A sweep over entries finds the parents of their nesting, or fails at the first crossing. -/
theorem tightest_eq : tightest entries = (Nesting.ofEntries entries).map Nesting.parents := by
  have swept : tightest entries = ((initial entries).run (order entries)).map Sweep.parents := by
    rw [tightest]
    cases (initial entries).run (order entries) <;> rfl
  have links : pending [] (entries.mergeSort Entry.comesFirst) =
      (group (entries.mergeSort Entry.comesFirst)).links := rfl
  rw [swept, run_eq, initial, map_fst_order, links, ← firstCrossing?_eq, Nesting.ofEntries]
  cases firstCrossing? (group (entries.mergeSort Entry.comesFirst)) with
  | some crossing => rfl
  | none => exact congrArg Except.ok (noted_eq_parents ascending (Nesting.labels_group _))

end Nested

/-- A sweep over all tags resolves them. -/
theorem tightest_numbered (tags : List Tag) :
    tightest (Entry.numbered 0 tags) = Nesting.resolve tags :=
  tightest_eq (Entry.pairwise_index_numbered 0 tags)

end Sweep

end Laminar
