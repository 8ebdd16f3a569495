import Laminar.Span

/-!
# Gaps

The gaps that a collection of claims leaves in a span: the offsets of the span that no claim
holds, as the fewest spans in ascending order. A cursor moves over the sorted claims; what lies
between the cursor and the next claim is a gap.
-/

namespace Laminar.Span

/-- One span comes no later than another in the order of spans. -/
def comesFirst (a b : Span) : Bool :=
  (a.order b).isLE

/-- The gaps from `cursor` to `stop` that claims in ascending order leave. -/
def gapsFrom (cursor stop : UInt64) : List Span → List Span
  | [] => if cursor < stop then [⟨cursor, stop⟩] else []
  | claim :: rest =>
    let later := gapsFrom (max cursor claim.stop) stop rest
    if cursor < claim.start then ⟨cursor, claim.start⟩ :: later else later

/-- The gaps that `claims`, in any order, leave in a span. A claim that holds no offset of the
span leaves all of it. -/
def gaps (s : Span) (claims : List Span) : List Span :=
  gapsFrom s.start s.stop
    ((claims.filter fun claim => ¬ claim.Degenerate ∧ claim.Overlaps s).mergeSort comesFirst)

end Laminar.Span
