import Mathlib.Data.List.Pairwise
import Laminar.Span.Gaps
import Laminar.Proofs.Span

/-!
# Maximal gaps

The gaps that claims leave in a span hold exactly the offsets of the span that no claim holds, and
each of them ends before the next begins, with an offset between them (`complement_gaps`). A part of
the span that shares no offset with a claim can therefore not reach from one gap into another, so
the gaps are the largest such parts (`mem_gaps_iff`).
-/

namespace Laminar.Span

/-- The later one of two offsets is the one with the larger number. -/
theorem toNat_max (a b : UInt64) : (max a b).toNat = max a.toNat b.toNat := by
  rw [UInt64.max_def]
  split
  · next ordered => rw [Nat.max_eq_right (UInt64.le_iff_toNat_le.mp ordered)]
  · next inverted =>
    rw [UInt64.le_iff_toNat_le] at inverted
    rw [Nat.max_eq_left (by omega)]

/-- The number before that of an offset is that of an offset. -/
theorem toNat_ofNat_pred (offset : UInt64) :
    (UInt64.ofNat (offset.toNat - 1)).toNat = offset.toNat - 1 :=
  UInt64.toNat_ofNat_of_lt' (Nat.lt_of_le_of_lt (Nat.sub_le _ _) offset.toNat_lt)

/-- An offset lies in a span if its number lies between those of the ends. -/
theorem holds_iff (s : Span) (offset : UInt64) :
    s.Holds offset ↔ s.start.toNat ≤ offset.toNat ∧ offset.toNat < s.stop.toNat := by
  rw [Holds, UInt64.le_iff_toNat_le, UInt64.lt_iff_toNat_lt]

/-- A span that holds all offsets of a proper one encloses it. -/
theorem encloses_of_holds {outer inner : Span} (proper : inner.start < inner.stop)
    (holds : ∀ offset, inner.Holds offset → outer.Holds offset) : outer.Encloses inner := by
  rw [UInt64.lt_iff_toNat_lt] at proper
  have first := holds inner.start ⟨UInt64.le_refl _, UInt64.lt_iff_toNat_lt.mpr proper⟩
  have last := holds (UInt64.ofNat (inner.stop.toNat - 1)) (by
    rw [holds_iff, toNat_ofNat_pred]
    omega)
  rw [holds_iff] at first
  rw [holds_iff, toNat_ofNat_pred] at last
  rw [Encloses, UInt64.le_iff_toNat_le, UInt64.le_iff_toNat_le]
  omega

/-! ## Parts without claims -/

/-- A part of a span that holds an offset and shares none with the claims. -/
structure Unclaimed (whole : Span) (claims : List Span) (part : Span) : Prop where
  /-- The part holds an offset. -/
  proper : ¬ part.Degenerate
  /-- The part lies in the span. -/
  within : whole.Encloses part
  /-- No claim holds an offset of the part. -/
  free : ∀ offset, part.Holds offset → ∀ claim ∈ claims, ¬ claim.Holds offset

/-- A part of a span without claims that lies in no other one. -/
def IsGap (whole : Span) (claims : List Span) (part : Span) : Prop :=
  Unclaimed whole claims part ∧
    ∀ wider, Unclaimed whole claims wider → wider.Encloses part → wider = part

/-- Parts that are apart, with an offset between any two, and that hold exactly the offsets of a
span that no claim holds. -/
structure Complement (whole : Span) (claims parts : List Span) : Prop where
  /-- Every part holds an offset. -/
  proper : ∀ part ∈ parts, part.start < part.stop
  /-- Each part ends before the next begins. -/
  apart : parts.Pairwise fun earlier later => earlier.stop < later.start
  /-- Some part holds an offset if the span does and no claim does. -/
  holds : ∀ offset, (∃ part ∈ parts, part.Holds offset) ↔
    whole.Holds offset ∧ ∀ claim ∈ claims, ¬ claim.Holds offset

namespace Complement

variable {whole : Span} {claims parts : List Span} (complement : Complement whole claims parts)

include complement

/-- Of two parts, one ends before the other begins, or they are the same. -/
theorem eq_or_apart {a b : Span} (left : a ∈ parts) (right : b ∈ parts) :
    a = b ∨ a.stop < b.start ∨ b.stop < a.start := by
  have symmetric : Std.Symm fun a b : Span => a = b ∨ a.stop < b.start ∨ b.stop < a.start :=
    ⟨by rintro a b (rfl | first | second) <;> simp [*]⟩
  have pairs : parts.Pairwise fun a b => a = b ∨ a.stop < b.start ∨ b.stop < a.start :=
    complement.apart.imp fun first => .inr (.inl first)
  exact pairs.forall_of_forall (fun _ _ => .inl rfl) left right

/-- A part of the complement is a part of the span without claims. -/
theorem unclaimed {part : Span} (present : part ∈ parts) : Unclaimed whole claims part := by
  have proper := complement.proper part present
  refine ⟨(not_degenerate_iff part).mpr proper, encloses_of_holds proper ?_, ?_⟩
  · intro offset held
    exact ((complement.holds offset).mp ⟨part, present, held⟩).1
  · intro offset held
    exact ((complement.holds offset).mp ⟨part, present, held⟩).2

/-- A part of the span without claims does not reach out of a part of the complement with which it
shares an offset: just outside of that one there is a claim, or the span ends. -/
theorem encloses_of_shared {part wide : Span} (present : part ∈ parts)
    (unclaimed : Unclaimed whole claims wide) {offset : UInt64} (inPart : part.Holds offset)
    (inWide : wide.Holds offset) : part.Encloses wide := by
  have outside : ∀ other : UInt64, wide.Holds other →
      ∃ neighbour ∈ parts, neighbour.Holds other := by
    intro other held
    exact (complement.holds other).mpr ⟨unclaimed.within.holds held, unclaimed.free other held⟩
  rw [holds_iff] at inPart inWide
  rw [Encloses, UInt64.le_iff_toNat_le, UInt64.le_iff_toNat_le]
  constructor
  · by_contra before
    obtain ⟨neighbour, other, held⟩ := outside (UInt64.ofNat (part.start.toNat - 1)) (by
      rw [holds_iff, toNat_ofNat_pred]
      omega)
    rw [holds_iff, toNat_ofNat_pred] at held
    have pair := complement.eq_or_apart present other
    rw [UInt64.lt_iff_toNat_lt, UInt64.lt_iff_toNat_lt] at pair
    rcases pair with rfl | first | second
    · omega
    · omega
    · omega
  · by_contra after
    obtain ⟨neighbour, other, held⟩ := outside part.stop (by
      rw [holds_iff]
      omega)
    rw [holds_iff] at held
    have pair := complement.eq_or_apart present other
    rw [UInt64.lt_iff_toNat_lt, UInt64.lt_iff_toNat_lt] at pair
    rcases pair with rfl | first | second
    · omega
    · omega
    · omega

/-- The parts are the largest parts of the span without claims. -/
theorem mem_iff_isGap (part : Span) : part ∈ parts ↔ IsGap whole claims part := by
  constructor
  · intro present
    refine ⟨complement.unclaimed present, fun wider unclaimed encloses => ?_⟩
    have proper := complement.proper part present
    have held : part.Holds part.start := ⟨UInt64.le_refl _, proper⟩
    have enclosed := complement.encloses_of_shared present unclaimed held (encloses.holds held)
    apply (eq_iff _ _).mpr
    exact ⟨UInt64.le_antisymm encloses.1 enclosed.1, UInt64.le_antisymm enclosed.2 encloses.2⟩
  · rintro ⟨unclaimed, largest⟩
    have held : part.Holds part.start :=
      ⟨UInt64.le_refl _, (not_degenerate_iff part).mp unclaimed.proper⟩
    obtain ⟨found, present, shared⟩ := (complement.holds part.start).mpr
      ⟨unclaimed.within.holds held, unclaimed.free part.start held⟩
    have encloses := complement.encloses_of_shared present unclaimed shared held
    rw [← largest found (complement.unclaimed present) encloses]
    exact present

end Complement

/-! ## The scan -/

section Scan

variable {cursor stop : UInt64} {claims : List Span}

/-- Gaps hold offsets and lie between the cursor and the end. -/
theorem inside_gapsFrom (ends : ∀ claim ∈ claims, claim.start < stop) :
    ∀ gap ∈ gapsFrom cursor stop claims,
      cursor ≤ gap.start ∧ gap.start < gap.stop ∧ gap.stop ≤ stop := by
  induction claims generalizing cursor with
  | nil =>
    intro gap present
    unfold gapsFrom at present
    split at present
    · next proper =>
      rw [List.mem_singleton.mp present]
      exact ⟨UInt64.le_refl _, proper, UInt64.le_refl _⟩
    · contradiction
  | cons claim rest later =>
    obtain ⟨here, others⟩ := List.forall_mem_cons.mp ends
    have following : ∀ gap ∈ gapsFrom (max cursor claim.stop) stop rest,
        cursor ≤ gap.start ∧ gap.start < gap.stop ∧ gap.stop ≤ stop := by
      intro gap present
      obtain ⟨after, inside⟩ := later others gap present
      rw [UInt64.le_iff_toNat_le, toNat_max] at after
      refine ⟨?_, inside⟩
      rw [UInt64.le_iff_toNat_le]
      omega
    intro gap present
    unfold gapsFrom at present
    split at present
    · next proper =>
      rcases List.mem_cons.mp present with rfl | present
      · exact ⟨UInt64.le_refl _, proper, UInt64.le_of_lt here⟩
      · exact following gap present
    · exact following gap present

/-- Of claims that hold an offset, in ascending order, a gap ends before the next begins. -/
theorem pairwise_gapsFrom (proper : ∀ claim ∈ claims, claim.start < claim.stop)
    (ends : ∀ claim ∈ claims, claim.start < stop) :
    (gapsFrom cursor stop claims).Pairwise fun earlier later => earlier.stop < later.start := by
  induction claims generalizing cursor with
  | nil =>
    unfold gapsFrom
    split <;> simp
  | cons claim rest later =>
    obtain ⟨here, others⟩ := List.forall_mem_cons.mp proper
    obtain ⟨-, otherEnds⟩ := List.forall_mem_cons.mp ends
    have following : (gapsFrom (max cursor claim.stop) stop rest).Pairwise
        fun earlier later => earlier.stop < later.start := later others otherEnds
    unfold gapsFrom
    split
    · refine List.Pairwise.cons (fun gap present => ?_) following
      have after := (inside_gapsFrom otherEnds gap present).1
      rw [UInt64.le_iff_toNat_le, toNat_max] at after
      rw [UInt64.lt_iff_toNat_lt] at here ⊢
      show claim.start.toNat < gap.start.toNat
      omega
    · exact following

/-- The gaps hold what lies between the cursor and the end and in no claim. Before a claim begins,
neither it nor any later claim holds an offset. -/
theorem exists_mem_gapsFrom_holds_iff
    (sorted : claims.Pairwise fun earlier later => earlier.start ≤ later.start)
    (ends : ∀ claim ∈ claims, claim.start < stop) (offset : UInt64) :
    (∃ gap ∈ gapsFrom cursor stop claims, gap.Holds offset) ↔
      (cursor ≤ offset ∧ offset < stop) ∧ ∀ claim ∈ claims, ¬ claim.Holds offset := by
  induction claims generalizing cursor with
  | nil =>
    unfold gapsFrom
    split
    · simp [Holds]
    · next none_left =>
      have empty : ¬ (cursor ≤ offset ∧ offset < stop) :=
        fun between => none_left (UInt64.lt_of_le_of_lt between.1 between.2)
      simp [empty]
  | cons claim rest later =>
    obtain ⟨first, sorted⟩ := List.pairwise_cons.mp sorted
    obtain ⟨here, ends⟩ := List.forall_mem_cons.mp ends
    have following : (∃ gap ∈ gapsFrom (max cursor claim.stop) stop rest, gap.Holds offset) ↔
        (max cursor claim.stop ≤ offset ∧ offset < stop) ∧ ∀ claim ∈ rest, ¬ claim.Holds offset :=
      later sorted ends
    have before : offset < claim.start → ∀ other ∈ claim :: rest, ¬ other.Holds offset := by
      intro early other present held
      rcases List.mem_cons.mp present with rfl | present
      · exact UInt64.not_le.mpr early held.1
      · exact UInt64.not_le.mpr early (UInt64.le_trans (first other present) held.1)
    have split_gaps : (∃ gap ∈ gapsFrom cursor stop (claim :: rest), gap.Holds offset) ↔
        (cursor ≤ offset ∧ offset < claim.start) ∨
          ∃ gap ∈ gapsFrom (max cursor claim.stop) stop rest, gap.Holds offset := by
      rw [gapsFrom]
      split
      · simp [Holds]
      · next none_left =>
        have empty : ¬ (cursor ≤ offset ∧ offset < claim.start) :=
          fun between => none_left (UInt64.lt_of_le_of_lt between.1 between.2)
        simp [empty]
    rw [split_gaps, following, List.forall_mem_cons]
    have words : (max cursor claim.stop ≤ offset ↔
        cursor.toNat ≤ offset.toNat ∧ claim.stop.toNat ≤ offset.toNat) := by
      rw [UInt64.le_iff_toNat_le, toNat_max]
      omega
    constructor
    · rintro (⟨after, early⟩ | ⟨⟨after, inside⟩, free⟩)
      · have free := List.forall_mem_cons.mp (before early)
        exact ⟨⟨after, UInt64.lt_trans early here⟩, free⟩
      · obtain ⟨past, ended⟩ := words.mp after
        refine ⟨⟨UInt64.le_iff_toNat_le.mpr past, inside⟩, ?_, free⟩
        exact fun held => UInt64.not_lt.mpr (UInt64.le_iff_toNat_le.mpr ended) held.2
    · rintro ⟨⟨after, inside⟩, missed, free⟩
      by_cases early : offset < claim.start
      · exact .inl ⟨after, early⟩
      · have ended : claim.stop ≤ offset :=
          UInt64.not_lt.mp fun late => missed ⟨UInt64.not_lt.mp early, late⟩
        refine .inr ⟨⟨words.mpr ?_, inside⟩, free⟩
        exact ⟨UInt64.le_iff_toNat_le.mp after, UInt64.le_iff_toNat_le.mp ended⟩

end Scan

/-! ## The gaps in a span -/

/-- One span comes no later than another if it begins earlier, or with it and ends no later. -/
theorem comesFirst_iff (a b : Span) :
    a.comesFirst b = true ↔
      a.start.toNat < b.start.toNat ∨
        a.start.toNat = b.start.toNat ∧ a.stop.toNat ≤ b.stop.toNat := by
  simp only [comesFirst, order, Ordering.isLE_then_iff_or, Std.compare_eq_lt, Std.isLE_compare,
    Std.compare_eq_iff_eq, UInt64.lt_iff_toNat_lt, UInt64.le_iff_toNat_le, ← UInt64.toNat_inj]

/-- Sorted claims come each no later than those after it. -/
theorem pairwise_comesFirst_mergeSort (claims : List Span) :
    (claims.mergeSort comesFirst).Pairwise fun a b => a.comesFirst b = true := by
  apply List.pairwise_mergeSort
  · intro a b c first second
    rw [comesFirst_iff] at *
    omega
  · intro a b
    rw [Bool.or_eq_true, comesFirst_iff, comesFirst_iff]
    omega

/-- The gaps do not depend on the order of the claims. -/
theorem gaps_perm {claims others : List Span} (s : Span) (same : claims.Perm others) :
    s.gaps claims = s.gaps others := by
  rw [gaps, gaps]
  refine congrArg _ (List.Perm.eq_of_pairwise ?_ (pairwise_comesFirst_mergeSort _)
    (pairwise_comesFirst_mergeSort _) ?_)
  · intro a b _ _ first second
    rw [comesFirst_iff] at first second
    rw [eq_iff, ← UInt64.toNat_inj, ← UInt64.toNat_inj]
    omega
  · exact (List.mergeSort_perm _ _).trans ((same.filter _).trans (List.mergeSort_perm _ _).symm)

/-- The claims that hold an offset of a span, in ascending order. -/
def claimsWithin (s : Span) (claims : List Span) : List Span :=
  (claims.filter fun claim => ¬ claim.Degenerate ∧ claim.Overlaps s).mergeSort comesFirst

/-- The claims within a span are those that hold an offset and overlap it. -/
theorem mem_claimsWithin {s claim : Span} {claims : List Span} :
    claim ∈ claimsWithin s claims ↔
      claim ∈ claims ∧ claim.start < claim.stop ∧ claim.Overlaps s := by
  rw [claimsWithin, List.mem_mergeSort, List.mem_filter, decide_eq_true_eq, not_degenerate_iff]

/-- The gaps are the complement of the claims, in whatever order these come. A claim that holds an
offset of the span overlaps the span, so it is not left out. -/
theorem complement_gaps (s : Span) (claims : List Span) : Complement s claims (s.gaps claims) := by
  have proper : ∀ claim ∈ claimsWithin s claims, claim.start < claim.stop :=
    fun _ present => (mem_claimsWithin.mp present).2.1
  have ends : ∀ claim ∈ claimsWithin s claims, claim.start < s.stop :=
    fun _ present => (mem_claimsWithin.mp present).2.2.1
  have sorted : (claimsWithin s claims).Pairwise fun a b => a.start ≤ b.start := by
    refine (pairwise_comesFirst_mergeSort _).imp ?_
    intro a b first
    rw [comesFirst_iff] at first
    rw [UInt64.le_iff_toNat_le]
    omega
  show Complement s claims (gapsFrom s.start s.stop (claimsWithin s claims))
  refine ⟨fun gap present => (inside_gapsFrom ends gap present).2.1,
    pairwise_gapsFrom proper ends, fun offset => ?_⟩
  rw [exists_mem_gapsFrom_holds_iff sorted ends]
  constructor
  · rintro ⟨inside, free⟩
    refine ⟨inside, fun claim present held => ?_⟩
    have overlaps : claim.Overlaps s :=
      ⟨UInt64.lt_of_le_of_lt held.1 inside.2, UInt64.lt_of_le_of_lt inside.1 held.2⟩
    have holds := UInt64.lt_of_le_of_lt held.1 held.2
    exact free claim (mem_claimsWithin.mpr ⟨present, holds, overlaps⟩) held
  · rintro ⟨inside, free⟩
    exact ⟨inside, fun claim present => free claim (mem_claimsWithin.mp present).1⟩

/-- The gaps are the largest parts of the span without claims. -/
theorem mem_gaps_iff (s : Span) (claims : List Span) (part : Span) :
    part ∈ s.gaps claims ↔ IsGap s claims part :=
  (complement_gaps s claims).mem_iff_isGap part

/-- Claims that hold offsets of the span and come in ascending order need not be sorted. -/
theorem gaps_eq_gapsFrom {s : Span} {claims : List Span}
    (sorted : claims.Pairwise fun a b => a.comesFirst b = true)
    (inside : ∀ claim ∈ claims, claim.start < claim.stop ∧ claim.Overlaps s) :
    s.gaps claims = gapsFrom s.start s.stop claims := by
  have all : (claims.filter fun claim => ¬ claim.Degenerate ∧ claim.Overlaps s) = claims := by
    apply List.filter_eq_self.mpr
    intro claim present
    rw [decide_eq_true_eq, not_degenerate_iff]
    exact inside claim present
  rw [gaps, all, List.mergeSort_of_pairwise sorted]

end Laminar.Span
