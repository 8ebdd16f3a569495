import Laminar.Proofs.Span.Gaps

/-!
# Complements are unique

Parts of a span that hold what no claim holds, each ending before the next begins, are determined by
the offsets that the claims hold (`Complement.unique`). So the gaps are the only such parts, they
depend on nothing but these offsets (`gaps_eq_of_coversAlike`), and the gaps of the gaps cover what
the claims cover (`coversAlike_gaps_gaps`).
-/

namespace Laminar.Span

/-- Two collections of claims hold the same offsets of a span. -/
def CoversAlike (whole : Span) (claims others : List Span) : Prop :=
  ∀ offset, whole.Holds offset →
    ((∃ claim ∈ claims, claim.Holds offset) ↔ ∃ other ∈ others, other.Holds offset)

namespace Complement

variable {whole : Span} {claims others parts more : List Span}

/-- Of parts that are apart, each comes once. -/
theorem nodup (complement : Complement whole claims parts) : parts.Nodup := by
  refine complement.apart.imp_of_mem ?_
  rintro a b present - first rfl
  exact UInt64.lt_irrefl _ (UInt64.lt_trans first (complement.proper a present))

/-- The parts are the only ones in their order. A part that ends before another one begins does not
begin after this one ends, so the same parts have one order only. -/
theorem unique (complement : Complement whole claims parts)
    (other : Complement whole claims more) : parts = more := by
  have members : parts.Perm more := by
    refine (List.perm_ext_iff_of_nodup complement.nodup other.nodup).mpr fun part => ?_
    rw [complement.mem_iff_isGap, other.mem_iff_isGap]
  refine List.Perm.eq_of_pairwise ?_ complement.apart other.apart members
  intro a b left right first second
  have ends := UInt64.lt_trans first (other.proper b right)
  have begins := UInt64.lt_trans second (complement.proper a left)
  exact absurd begins (UInt64.not_lt.mpr (UInt64.le_of_lt ends))

/-- What is no offset of a claim depends on the offsets of the claims alone. -/
theorem congr (complement : Complement whole claims parts)
    (alike : CoversAlike whole claims others) : Complement whole others parts := by
  refine ⟨complement.proper, complement.apart, fun offset => ?_⟩
  rw [complement.holds]
  refine and_congr_right fun inside => ?_
  have same := not_congr (alike offset inside)
  push Not at same
  exact same

end Complement

/-- The gaps depend on the offsets that the claims hold in the span, and on nothing else. -/
theorem gaps_eq_of_coversAlike {s : Span} {claims others : List Span}
    (alike : CoversAlike s claims others) : s.gaps others = s.gaps claims :=
  (complement_gaps s others).unique ((complement_gaps s claims).congr alike)

/-- Claims with the same members hold the same offsets. -/
theorem coversAlike_of_mem_iff (s : Span) {claims others : List Span}
    (same : ∀ claim, claim ∈ others ↔ claim ∈ claims) : CoversAlike s claims others := by
  intro offset _
  simp only [same]

/-- The gaps of the gaps hold the offsets of the span that the claims hold. -/
theorem coversAlike_gaps_gaps (s : Span) (claims : List Span) :
    CoversAlike s claims (s.gaps (s.gaps claims)) := by
  intro offset inside
  have covered : (∀ gap ∈ s.gaps claims, ¬ gap.Holds offset) ↔
      ∃ claim ∈ claims, claim.Holds offset := by
    have held := not_congr ((complement_gaps s claims).holds offset)
    push Not at held
    exact held.trans (by simp [inside])
  rw [(complement_gaps s (s.gaps claims)).holds, covered, and_iff_right inside]

/-- The gaps are the complement of the claims in a span. An offset is in some gap if it is in the
span and in no claim; every gap holds an offset, lies in the span and ends before the next one
begins, so the gaps are the largest parts without claims. They are the only such list. The order and
number of the claims do not matter, nor does anything but the offsets of the span that they hold,
and the gaps of the gaps of the gaps are the gaps. -/
theorem gaps_canonical (s : Span) (claims : List Span) :
    Complement s claims (s.gaps claims) ∧
    (∀ gap ∈ s.gaps claims, s.Encloses gap) ∧
    (∀ part, part ∈ s.gaps claims ↔ IsGap s claims part) ∧
    (∀ parts, Complement s claims parts → parts = s.gaps claims) ∧
    (∀ others, (∀ claim, claim ∈ others ↔ claim ∈ claims) → s.gaps others = s.gaps claims) ∧
    (∀ others, CoversAlike s claims others → s.gaps others = s.gaps claims) ∧
    s.gaps (s.gaps (s.gaps claims)) = s.gaps claims := by
  have complement := complement_gaps s claims
  refine ⟨complement, ?_, mem_gaps_iff s claims, ?_, ?_, ?_, ?_⟩
  · exact fun gap present => (complement.unclaimed present).within
  · exact fun parts other => other.unique complement
  · exact fun others same => gaps_eq_of_coversAlike (coversAlike_of_mem_iff s same)
  · exact fun others => gaps_eq_of_coversAlike
  · exact gaps_eq_of_coversAlike (coversAlike_gaps_gaps s claims)

/-- Claims that overlap, come twice, lie in others, stick out of the span, or hold nothing. -/
def untidyClaims : List Span :=
  [⟨20, 40⟩, ⟨2, 10⟩, ⟨14, 12⟩, ⟨6, 8⟩, ⟨2, 10⟩, ⟨8, 12⟩, ⟨16, 16⟩]

/-- Two claims that hold the same offsets from 4 to 32 as all of the above leave the same gap. -/
theorem gaps_canonical_untidyClaims :
    Complement ⟨4, 32⟩ untidyClaims [⟨12, 20⟩] ∧
      (⟨4, 32⟩ : Span).gaps untidyClaims = [⟨12, 20⟩] ∧
      CoversAlike ⟨4, 32⟩ untidyClaims [⟨4, 12⟩, ⟨20, 32⟩] ∧
      (⟨4, 32⟩ : Span).gaps [⟨4, 12⟩, ⟨20, 32⟩] = [⟨12, 20⟩] := by
  have complement : Complement ⟨4, 32⟩ untidyClaims [⟨12, 20⟩] := by
    refine ⟨by decide, List.pairwise_singleton _ _, fun offset => ?_⟩
    simp only [untidyClaims, List.exists_mem_cons_iff, List.forall_mem_cons, List.not_mem_nil,
      false_and, exists_const, or_false, false_implies, implies_true, and_true, holds_iff,
      UInt64.reduceToNat]
    omega
  have alike : CoversAlike ⟨4, 32⟩ untidyClaims [⟨4, 12⟩, ⟨20, 32⟩] := by
    intro offset inside
    rw [holds_iff] at inside
    simp only [untidyClaims, List.exists_mem_cons_iff, List.not_mem_nil, false_and, exists_const,
      or_false, holds_iff, UInt64.reduceToNat] at inside ⊢
    omega
  obtain ⟨-, -, -, unique, -, others, -⟩ := gaps_canonical ⟨4, 32⟩ untidyClaims
  have gaps := (unique _ complement).symm
  exact ⟨complement, gaps, alike, (others _ alike).trans gaps⟩

end Laminar.Span
