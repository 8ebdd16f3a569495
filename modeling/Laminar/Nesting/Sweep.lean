import Laminar.Nesting

/-!
# Sweeps

The parents of entries are found in one sweep over the entries in the order of nesting. What has
begun and not yet ended is kept open. When an entry begins, all that ended before it is closed, from
the innermost on. The innermost entry that is still open then has to enclose the new one and is its
parent.
-/

namespace Laminar

/-- Where a sweep over entries stands. -/
structure Sweep where
  /-- The entries that are open, the innermost first. -/
  opened : List Entry
  /-- The index of the parent for each entry that has one so far, by the place of the entry. -/
  parents : List (Option Nat)

namespace Sweep

/-- No entry has begun. -/
def initial (entries : List Entry) : Sweep :=
  ⟨[], entries.map fun _ => none⟩

/-- The entries that are still open where another begins. -/
def stillOpen (sweep : Sweep) (entry : Entry) : List Entry :=
  sweep.opened.dropWhile fun top => top.span.stop ≤ entry.span.start

/-- Opens the entry of a place below the innermost one that is still open. -/
def enter (sweep : Sweep) (entry : Entry) (place : Nat) : Except HierarchyError Sweep :=
  match sweep.stillOpen entry with
  | [] => .ok { sweep with opened := [entry] }
  | outer :: above =>
    if outer.span.Encloses entry.span then
      .ok ⟨entry :: outer :: above, sweep.parents.set place (some outer.index)⟩
    else
      .error (.crossing outer.tag entry.tag)

/-- Opens entries with their places one after the other. -/
def run (sweep : Sweep) : List (Entry × Nat) → Except HierarchyError Sweep
  | [] => .ok sweep
  | (entry, place) :: rest => do
    let next ← sweep.enter entry place
    next.run rest

/-- Entries with their places in the list, in the order of nesting. -/
def order (entries : List Entry) : List (Entry × Nat) :=
  entries.zipIdx.mergeSort fun a b => a.1.comesFirst b.1

/-- For every entry the index of its tightest encloser, or the first crossing. -/
def tightest (entries : List Entry) : Except HierarchyError (List (Option Nat)) := do
  let swept ← (initial entries).run (order entries)
  return swept.parents

end Sweep

end Laminar
