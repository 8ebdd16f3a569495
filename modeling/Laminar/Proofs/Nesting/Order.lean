import Mathlib.Data.List.Permutation
import Laminar.Nesting
import Laminar.Proofs.Span

/-!
# The order of nesting

`Before` says what the order of nesting compares: the beginnings, then the ends, the later one
first, then the places in the order of emission. Entries with distinct places are sorted by it
(`pairwise_before_mergeSort`), and an entry that encloses another comes before it, unless the two
are copies that were emitted the other way round (`before_of_encloses`).
-/

namespace Laminar.Entry

/-- One entry comes strictly before another in the order of nesting. -/
def Before (a b : Entry) : Prop :=
  a.span.start < b.span.start ∨
    a.span.start = b.span.start ∧
      (b.span.stop < a.span.stop ∨ a.span.stop = b.span.stop ∧ a.index < b.index)

/-- Which of two entries comes before the other can be computed. -/
instance (a b : Entry) : Decidable (a.Before b) :=
  inferInstanceAs (Decidable (_ ∨ _))

/-- The order compares numbers. -/
theorem before_iff (a b : Entry) :
    a.Before b ↔
      a.span.start.toNat < b.span.start.toNat ∨
        a.span.start.toNat = b.span.start.toNat ∧
          (b.span.stop.toNat < a.span.stop.toNat ∨
            a.span.stop.toNat = b.span.stop.toNat ∧ a.index < b.index) := by
  simp only [Before, UInt64.lt_iff_toNat_lt, UInt64.toNat_inj]

/-- No entry comes before itself. -/
theorem Before.irrefl (a : Entry) : ¬ a.Before a := by
  rw [before_iff]
  omega

/-- Of two entries only one comes before the other. -/
theorem Before.asymm {a b : Entry} (first : a.Before b) : ¬ b.Before a := by
  rw [before_iff] at *
  omega

/-- The order of nesting is transitive. -/
theorem Before.trans {a b c : Entry} (first : a.Before b) (second : b.Before c) : a.Before c := by
  rw [before_iff] at *
  omega

/-- An entry that comes before another begins no later. -/
theorem Before.start_le {a b : Entry} (first : a.Before b) : a.span.start ≤ b.span.start := by
  rw [before_iff] at first
  rw [UInt64.le_iff_toNat_le]
  omega

/-- An entry that comes before another that begins no later ends no earlier. -/
theorem Before.stop_le {a b : Entry} (first : a.Before b) (begins : b.span.start ≤ a.span.start) :
    b.span.stop ≤ a.span.stop := by
  rw [before_iff] at first
  rw [UInt64.le_iff_toNat_le] at *
  omega

/-- Of entries with one span the one emitted earlier comes before. -/
theorem Before.index_lt {a b : Entry} (first : a.Before b) (same : a.span = b.span) :
    a.index < b.index := by
  rw [before_iff, same] at first
  omega

/-- An entry comes no later than another if it comes before, or if nothing tells them apart. -/
theorem comesFirst_iff (a b : Entry) :
    a.comesFirst b = true ↔ a.Before b ∨ a.span = b.span ∧ a.index = b.index := by
  rw [before_iff, Span.eq_iff]
  simp only [comesFirst, order, Ordering.isLE_then_iff_or, Std.compare_eq_lt, Std.isLE_compare,
    Std.compare_eq_iff_eq, UInt64.lt_iff_toNat_lt, ← UInt64.toNat_inj]
  omega

/-- The order by which entries are sorted is transitive. -/
theorem comesFirst_trans (a b c : Entry) (first : a.comesFirst b = true)
    (second : b.comesFirst c = true) : a.comesFirst c = true := by
  simp only [comesFirst_iff, before_iff, Span.eq_iff, ← UInt64.toNat_inj] at *
  omega

/-- The order by which entries are sorted is total. -/
theorem comesFirst_total (a b : Entry) : (a.comesFirst b || b.comesFirst a) = true := by
  simp only [Bool.or_eq_true, comesFirst_iff, before_iff, Span.eq_iff, ← UInt64.toNat_inj]
  omega

/-- Entries with distinct places, once sorted, come one before the other. -/
theorem pairwise_before_mergeSort {entries : List Entry}
    (distinct : entries.Pairwise fun a b => a.index ≠ b.index) :
    (entries.mergeSort comesFirst).Pairwise Before := by
  have sorted := List.pairwise_mergeSort comesFirst_trans comesFirst_total entries
  have apart : (entries.mergeSort comesFirst).Pairwise fun a b => a.index ≠ b.index :=
    distinct.perm (List.mergeSort_perm entries comesFirst).symm Ne.symm
  refine (sorted.and apart).imp ?_
  rintro a b ⟨first, different⟩
  exact ((comesFirst_iff a b).mp first).resolve_right fun same => different same.2

/-- An entry that encloses another comes before it, unless it has the same span and a later
place. -/
theorem before_of_encloses {a b : Entry} (outer : a.span.Encloses b.span)
    (earlier : a.span ≠ b.span ∨ a.index < b.index) : a.Before b := by
  rw [Ne, Span.eq_iff, ← UInt64.toNat_inj, ← UInt64.toNat_inj] at earlier
  rw [Span.Encloses, UInt64.le_iff_toNat_le, UInt64.le_iff_toNat_le] at outer
  rw [before_iff]
  omega

/-! ## Numbered tags -/

/-- The entry at a place has the tag at this place and its number. -/
theorem getElem?_numbered (next : Nat) (tags : List Tag) (place : Nat) :
    (numbered next tags)[place]? = tags[place]?.map fun tag => ⟨next + place, tag⟩ := by
  induction tags generalizing next place with
  | nil => rfl
  | cons tag rest later =>
    cases place with
    | zero => rfl
    | succ place =>
      simp only [numbered, List.getElem?_cons_succ, later]
      rw [show next + 1 + place = next + (place + 1) by omega]

/-- An entry has the tag that was emitted at its place. -/
theorem mem_numbered {tags : List Tag} {entry : Entry} :
    entry ∈ numbered 0 tags ↔ tags[entry.index]? = some entry.tag := by
  rw [List.mem_iff_getElem?]
  simp only [getElem?_numbered, Nat.zero_add, Option.map_eq_some_iff]
  constructor
  · rintro ⟨place, tag, emitted, rfl⟩
    exact emitted
  · intro emitted
    exact ⟨entry.index, entry.tag, emitted, rfl⟩

/-- Numbering keeps the tags in their order. -/
theorem map_tag_numbered (next : Nat) (tags : List Tag) :
    (numbered next tags).map Entry.tag = tags := by
  induction tags generalizing next with
  | nil => rfl
  | cons tag rest later => rw [numbered, List.map_cons, later]

/-- What holds of all tags holds of all entries. -/
theorem forall_mem_numbered_iff (condition : Tag → Prop) (next : Nat) (tags : List Tag) :
    (∀ entry ∈ numbered next tags, condition entry.tag) ↔ ∀ tag ∈ tags, condition tag := by
  rw [← List.forall_mem_map (f := Entry.tag), map_tag_numbered]

/-- Numbering keeps the spans in their order. -/
theorem map_span_numbered (next : Nat) (tags : List Tag) :
    (numbered next tags).map span = tags.map Tag.span := by
  have spans := congrArg (List.map Tag.span) (map_tag_numbered next tags)
  rwa [List.map_map] at spans

/-- There are as many entries as tags. -/
theorem length_numbered (next : Nat) (tags : List Tag) :
    (numbered next tags).length = tags.length := by
  rw [← List.length_map (f := Entry.tag), map_tag_numbered]

/-- Numbering a joined list goes on where the first part ends. -/
theorem numbered_append (next : Nat) (tags others : List Tag) :
    numbered next (tags ++ others) =
      numbered next tags ++ numbered (next + tags.length) others := by
  induction tags generalizing next with
  | nil => rfl
  | cons tag rest later =>
    have total : next + 1 + rest.length = next + (rest.length + 1) := by omega
    simp only [List.cons_append, numbered, later, List.length_cons, total]

/-- The tag of an entry was emitted. -/
theorem tag_mem_of_mem_numbered {tags : List Tag} {entry : Entry}
    (numbered : entry ∈ numbered 0 tags) : entry.tag ∈ tags :=
  List.mem_of_getElem? (mem_numbered.mp numbered)

/-- Among entries with distinct places, the place tells which one it is. -/
theorem eq_of_index_eq {entries : List Entry}
    (ascending : entries.Pairwise fun a b => a.index < b.index) {a b : Entry} (left : a ∈ entries)
    (right : b ∈ entries) (same : a.index = b.index) : a = b := by
  have distinct : (entries.map index).Nodup :=
    List.pairwise_map.mpr (ascending.imp Nat.ne_of_lt)
  exact List.inj_on_of_nodup_map distinct left right same

/-- Entries with ascending places are distinct. -/
theorem nodup_of_ascending {entries : List Entry}
    (ascending : entries.Pairwise fun a b => a.index < b.index) : entries.Nodup := by
  refine ascending.imp ?_
  rintro a b first rfl
  exact Nat.lt_irrefl _ first

/-- Every tag has an entry. -/
theorem exists_mem_numbered {tags : List Tag} {tag : Tag} (emitted : tag ∈ tags) :
    ∃ entry ∈ numbered 0 tags, entry.tag = tag := by
  obtain ⟨place, found⟩ := List.mem_iff_getElem?.mp emitted
  exact ⟨⟨place, tag⟩, mem_numbered.mpr found, rfl⟩

/-- The places count up. -/
theorem pairwise_index_numbered (next : Nat) (tags : List Tag) :
    (numbered next tags).Pairwise fun a b => a.index < b.index := by
  have above : ∀ (next : Nat) (tags : List Tag), ∀ entry ∈ numbered next tags,
      next ≤ entry.index := by
    intro next tags entry present
    obtain ⟨place, found⟩ := List.mem_iff_getElem?.mp present
    rw [getElem?_numbered] at found
    obtain ⟨tag, emitted, rfl⟩ := Option.map_eq_some_iff.mp found
    exact Nat.le_add_right next place
  induction tags generalizing next with
  | nil => exact List.Pairwise.nil
  | cons tag rest later =>
    exact List.Pairwise.cons (fun entry present => above _ _ entry present) (later (next + 1))

/-- The places are distinct. -/
theorem pairwise_index_ne_numbered (tags : List Tag) :
    (numbered 0 tags).Pairwise fun a b => a.index ≠ b.index :=
  (pairwise_index_numbered 0 tags).imp Nat.ne_of_lt

end Laminar.Entry
