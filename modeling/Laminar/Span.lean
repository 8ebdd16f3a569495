import Laminar.Numeral

/-!
# Spans

A span is a half-open range of 64-bit byte offsets. A span need not be proper: sources emit
empty and inverted ranges, and each consumer decides what they mean. All relations are
statements about the two ends alone, so they are decidable and need no case for such spans.
-/

namespace Laminar

/-- The offsets from `start` up to, and not including, `stop`. -/
structure Span where
  /-- The first offset. -/
  start : UInt64
  /-- The offset just past the last one. -/
  stop : UInt64
deriving DecidableEq, Inhabited

namespace Span

/-- How many offsets a span holds; an inverted span holds none. -/
def length (s : Span) : UInt64 :=
  if s.start ≤ s.stop then s.stop - s.start else 0

/-- A span that holds no offset: its end is not past its beginning. -/
def Degenerate (s : Span) : Prop :=
  s.stop ≤ s.start

/-- An offset lies in a span. -/
def Holds (s : Span) (offset : UInt64) : Prop :=
  s.start ≤ offset ∧ offset < s.stop

/-- The ends of `inner` lie between the ends of `outer`. -/
def Encloses (outer inner : Span) : Prop :=
  outer.start ≤ inner.start ∧ inner.stop ≤ outer.stop

/-- Enclosure between spans of different length. -/
def StrictlyEncloses (outer inner : Span) : Prop :=
  outer.Encloses inner ∧ outer.length ≠ inner.length

/-- Each span begins before the other ends. -/
def Overlaps (a b : Span) : Prop :=
  a.start < b.stop ∧ b.start < a.stop

/-- Overlap in which neither span encloses the other. -/
def Crosses (a b : Span) : Prop :=
  a.Overlaps b ∧ ¬ a.Encloses b ∧ ¬ b.Encloses a

/-- Whether a span holds no offset can be computed. -/
instance (s : Span) : Decidable s.Degenerate :=
  inferInstanceAs (Decidable (_ ≤ _))

/-- Whether a span holds an offset can be computed. -/
instance (s : Span) (offset : UInt64) : Decidable (s.Holds offset) :=
  inferInstanceAs (Decidable (_ ∧ _))

/-- Whether a span encloses another can be computed. -/
instance (a b : Span) : Decidable (a.Encloses b) :=
  inferInstanceAs (Decidable (_ ∧ _))

/-- Whether a span encloses another strictly can be computed. -/
instance (a b : Span) : Decidable (a.StrictlyEncloses b) :=
  inferInstanceAs (Decidable (_ ∧ _))

/-- Whether two spans overlap can be computed. -/
instance (a b : Span) : Decidable (a.Overlaps b) :=
  inferInstanceAs (Decidable (_ ∧ _))

/-- Whether two spans cross can be computed. -/
instance (a b : Span) : Decidable (a.Crosses b) :=
  inferInstanceAs (Decidable (_ ∧ _))

/-- The length is the distance of the ends, cut off at zero. -/
theorem toNat_length (s : Span) : s.length.toNat = s.stop.toNat - s.start.toNat := by
  unfold length
  split
  · next ordered => exact UInt64.toNat_sub_of_le _ _ ordered
  · next inverted =>
    have inverted := mt UInt64.le_iff_toNat_le.mpr inverted
    simp only [UInt64.toNat_zero]
    omega

/-- A span encloses itself. -/
theorem Encloses.refl (s : Span) : s.Encloses s :=
  ⟨UInt64.le_refl _, UInt64.le_refl _⟩

/-- Enclosure is transitive. -/
theorem Encloses.trans {a b c : Span} (outer : a.Encloses b) (inner : b.Encloses c) :
    a.Encloses c :=
  ⟨UInt64.le_trans outer.1 inner.1, UInt64.le_trans inner.2 outer.2⟩

/-- Overlap is mutual. -/
theorem Overlaps.symm {a b : Span} (overlap : a.Overlaps b) : b.Overlaps a :=
  ⟨overlap.2, overlap.1⟩

/-- Crossing is mutual. -/
theorem Crosses.symm {a b : Span} (crossing : a.Crosses b) : b.Crosses a :=
  ⟨crossing.1.symm, crossing.2.2, crossing.2.1⟩

/-- The order of spans: by beginning, then by end. -/
def order (a b : Span) : Ordering :=
  (compare a.start b.start).then (compare a.stop b.stop)

/-- The written form of a span, its ends in marked upper-case hexadecimal. -/
def text (s : Span) : String :=
  "[" ++ Numeral.upperHex s.start.toNat ++ "," ++ Numeral.upperHex s.stop.toNat ++ ")"

end Span

end Laminar
