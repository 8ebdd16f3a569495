import Mathlib.Data.List.Chain
import Laminar.Span

/-!
# Tilings

The parts of a span tile it if they leave no gap, do not overlap, and stand in the order of their
offsets. `TiledBy` says so of the ends alone. `Adjoin` is the same as a recursion over the parts,
which also allows no part between equal ends, so that it passes to a joined list (`append`). An
offset between the ends is then held by one part and no other (`countP_holds`).
-/

namespace Laminar.Span

/-- No part is degenerate, the first begins where the whole does, each part begins where the one
before it ends, and the last ends where the whole does. -/
structure TiledBy (whole : Span) (parts : List Span) : Prop where
  /-- Every part holds an offset. -/
  proper : ∀ part ∈ parts, ¬ part.Degenerate
  /-- The first part begins where the whole does. -/
  first : parts.head?.map start = some whole.start
  /-- Each part begins where the one before it ends. -/
  adjacent : parts.IsChain fun earlier later => later.start = earlier.stop
  /-- The last part ends where the whole does. -/
  last : parts.getLast?.map stop = some whole.stop

/-- The parts follow one another without gap or overlap from `start` to `stop`. -/
def Adjoin (start stop : UInt64) : List Span → Prop
  | [] => start = stop
  | part :: rest => part.start = start ∧ part.start < part.stop ∧ Adjoin part.stop stop rest

/-- No offset comes after the last one. -/
theorem le_last (offset : UInt64) : offset ≤ 0xFFFFFFFFFFFFFFFF :=
  UInt64.le_iff_toNat_le.mpr (Nat.le_of_lt_succ offset.toNat_lt)

/-- Spans with the same ends are the same. -/
theorem eq_iff (s t : Span) : s = t ↔ s.start = t.start ∧ s.stop = t.stop := by
  cases s
  cases t
  simp

/-- A span holds an offset if it begins before it ends. -/
theorem not_degenerate_iff (s : Span) : ¬ s.Degenerate ↔ s.start < s.stop := by
  exact UInt64.not_le

/-- A span holds what a span that it encloses holds. -/
theorem Encloses.holds {outer inner : Span} {offset : UInt64} (encloses : outer.Encloses inner)
    (held : inner.Holds offset) : outer.Holds offset :=
  ⟨UInt64.le_trans encloses.1 held.1, UInt64.lt_of_lt_of_le held.2 encloses.2⟩

/-- What a span holds is not held by one that ends before. -/
theorem Holds.not_holds {earlier later : Span} {offset : UInt64} (held : later.Holds offset)
    (apart : earlier.stop ≤ later.start) : ¬ earlier.Holds offset :=
  fun before => UInt64.not_lt.mpr (UInt64.le_trans apart held.1) before.2

namespace Adjoin

variable {start middle stop : UInt64} {parts more : List Span}

/-- Adjoining parts end no earlier than they begin. -/
theorem le (adjoin : Adjoin start stop parts) : start ≤ stop := by
  induction parts generalizing start with
  | nil => exact adjoin ▸ UInt64.le_refl start
  | cons part rest later =>
    obtain ⟨rfl, proper, following⟩ := adjoin
    exact UInt64.le_trans (UInt64.le_of_lt proper) (later following)

/-- Parts up to an offset and parts from there on make one run. -/
theorem append (left : Adjoin start middle parts) (right : Adjoin middle stop more) :
    Adjoin start stop (parts ++ more) := by
  induction parts generalizing start with
  | nil => exact (show start = middle from left) ▸ right
  | cons part rest later => exact ⟨left.1, left.2.1, later left.2.2⟩

/-- Every part lies between the ends. -/
theorem inside (adjoin : Adjoin start stop parts) :
    ∀ part ∈ parts, start ≤ part.start ∧ part.stop ≤ stop := by
  induction parts generalizing start with
  | nil => simp
  | cons part rest later =>
    obtain ⟨rfl, proper, following⟩ := adjoin
    have bound := following.le
    have others := later following
    intro other present
    rcases List.mem_cons.mp present with rfl | present
    · exact ⟨UInt64.le_refl _, bound⟩
    · obtain ⟨begins, ends⟩ := others other present
      exact ⟨UInt64.le_trans (UInt64.le_of_lt proper) begins, ends⟩

/-- An earlier part ends before a later one begins. -/
theorem ordered (adjoin : Adjoin start stop parts) :
    parts.Pairwise fun earlier later => earlier.stop ≤ later.start := by
  induction parts generalizing start with
  | nil => exact List.Pairwise.nil
  | cons part rest later =>
    exact List.Pairwise.cons (fun other present => (adjoin.2.2.inside other present).1)
      (later adjoin.2.2)

/-- An offset between the ends is held by one part and no other, and no other offset is held. -/
theorem countP_holds (adjoin : Adjoin start stop parts) (offset : UInt64) :
    parts.countP (·.Holds offset) = if start ≤ offset ∧ offset < stop then 1 else 0 := by
  induction parts generalizing start with
  | nil =>
    obtain rfl : start = stop := adjoin
    have outside : ¬ (start ≤ offset ∧ offset < start) :=
      fun between => UInt64.not_lt.mpr between.1 between.2
    rw [if_neg outside, List.countP_nil]
  | cons part rest later =>
    obtain ⟨rfl, proper, following⟩ := adjoin
    have bound := following.le
    rw [List.countP_cons, later following]
    by_cases held : part.Holds offset
    · have past : ¬ (part.stop ≤ offset ∧ offset < stop) :=
        fun after => UInt64.not_lt.mpr after.1 held.2
      have between : part.start ≤ offset ∧ offset < stop :=
        ⟨held.1, UInt64.lt_of_lt_of_le held.2 bound⟩
      rw [if_neg past, if_pos between, if_pos (decide_eq_true held)]
    · have same : (part.stop ≤ offset ∧ offset < stop) ↔ part.start ≤ offset ∧ offset < stop := by
        constructor
        · rintro ⟨after, ends⟩
          exact ⟨UInt64.le_trans (UInt64.le_of_lt proper) after, ends⟩
        · rintro ⟨begins, ends⟩
          exact ⟨UInt64.not_lt.mp fun before => held ⟨begins, before⟩, ends⟩
      have uncounted : ¬ decide (part.Holds offset) = true := by simpa using held
      rw [if_congr same rfl rfl, if_neg uncounted, Nat.add_zero]

/-- The offsets between the ends are those that some part holds. -/
theorem exists_holds_iff (adjoin : Adjoin start stop parts) (offset : UInt64) :
    (∃ part ∈ parts, part.Holds offset) ↔ start ≤ offset ∧ offset < stop := by
  have counted := adjoin.countP_holds offset
  have found : 0 < parts.countP (·.Holds offset) ↔ ∃ part ∈ parts, part.Holds offset := by
    simp [List.countP_pos_iff]
  rw [← found, counted]
  split <;> simp_all

/-- Different ends have a part between them. -/
theorem ne_nil (adjoin : Adjoin start stop parts) (proper : start < stop) : parts ≠ [] := by
  rintro rfl
  obtain rfl : start = stop := adjoin
  exact UInt64.lt_irrefl start proper

/-- A run with a part tiles the span between its ends. -/
theorem tiledBy (adjoin : Adjoin start stop parts) (some_part : parts ≠ []) :
    TiledBy ⟨start, stop⟩ parts := by
  induction parts generalizing start with
  | nil => exact absurd rfl some_part
  | cons part rest later =>
    obtain ⟨rfl, proper, following⟩ := adjoin
    cases rest with
    | nil =>
      obtain rfl : part.stop = stop := following
      exact ⟨by simpa [not_degenerate_iff] using proper, rfl, List.IsChain.singleton part, rfl⟩
    | cons next others =>
      have tiled := later following (List.cons_ne_nil next others)
      refine ⟨?_, rfl, ?_, ?_⟩
      · exact List.forall_mem_cons.mpr ⟨(not_degenerate_iff part).mpr proper, tiled.proper⟩
      · exact List.IsChain.cons_cons following.1 tiled.adjacent
      · rw [List.getLast?_cons_cons]
        exact tiled.last

end Adjoin

end Laminar.Span
