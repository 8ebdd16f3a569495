import Laminar.Forest
import Laminar.Span
import Laminar.Text.Quoted

/-!
# Items and criteria

Ready-made items for forests, texts, numbers, sets of numbers and spans, and the usual criteria
by which one of them contains another. A criterion for one sort of item never relates items of
another sort. A table lists the pairs that are related, and can limit a pair to some of the times
that it is asked about.
-/

namespace Laminar.Forest

/-- An item of a forest. -/
inductive Item
  /-- A text. -/
  | text (content : String)
  /-- A number. -/
  | number (value : UInt64)
  /-- A set of numbers, ascending and without repetition. -/
  | set (members : List UInt64)
  /-- A span. -/
  | span (range : Span)
deriving DecidableEq

namespace Item

/-- A number among ascending ones, once. -/
def insertMember (value : UInt64) : List UInt64 → List UInt64
  | [] => [value]
  | first :: rest =>
    if value < first then value :: first :: rest
    else if value = first then first :: rest
    else first :: insertMember value rest

/-- The set of some numbers. -/
def ofMembers (values : List UInt64) : Item :=
  .set (values.foldr insertMember [])

/-- A number in decimal. -/
def numberText (value : UInt64) : String :=
  Numeral.decimal value.toNat

/-- How an item is shown. -/
def shown : Item → String
  | .text content => Text.quote content
  | .number value => numberText value
  | .set members => "\x7b" ++ ", ".intercalate (members.map numberText) ++ "\x7d"
  | .span range =>
    "Interval \x7b begin: " ++ numberText range.start ++ ", end: " ++ numberText range.stop ++
      " \x7d"

end Item

/-- A row of a table: a pair of numbers and, if the pair is not always related, the range of the
times it is asked about, counted from zero, at which it is. -/
structure TableRow where
  /-- The containing number. -/
  outer : UInt64
  /-- The contained number. -/
  inner : UInt64
  /-- The times at which the pair is related: not before the first, and before the second. -/
  times : Option (Nat × Nat)

/-- A criterion by which one item contains another. -/
inductive Criterion
  /-- The inner text begins with the outer one. -/
  | prefixOf
  /-- The inner text begins with the outer one and is longer. -/
  | strictPrefixOf
  /-- The outer text occurs in the inner one, which is longer. -/
  | strictSubstringOf
  /-- The outer set has every member of the inner one. -/
  | superset
  /-- The outer set has every member of the inner one, and others. -/
  | strictSuperset
  /-- The outer number is another than the inner one and divides it; zero divides nothing. -/
  | divides
  /-- The outer number divides the inner one; zero divides nothing. -/
  | dividesOrEquals
  /-- The outer number is the greater. -/
  | greater
  /-- The outer span encloses the inner one. -/
  | encloses
  /-- The outer span encloses the inner one, and their lengths differ. -/
  | strictlyEncloses
  /-- The spans overlap. -/
  | overlaps
  /-- Every item contains every item. -/
  | always
  /-- No item contains any. -/
  | never
  /-- The rows of a table say which numbers are related; for a pair the last row counts. -/
  | table (rows : List TableRow)

namespace Criterion

/-- The questions asked so far, the latest first. -/
abbrev Asked :=
  List (UInt64 × UInt64)

/-- One text occurs in another. -/
def occursIn (part : List Char) : List Char → Bool
  | [] => part.isEmpty
  | c :: rest => part.isPrefixOf (c :: rest) || occursIn part rest

/-- The outer number divides the inner one; zero divides nothing. -/
def dividesNumber (outer inner : UInt64) : Bool :=
  outer != 0 && inner % outer == 0

/-- The answer of a criterion that needs no memory. -/
def holds (criterion : Criterion) (outer inner : Item) : Bool :=
  match criterion, outer, inner with
  | .prefixOf, .text a, .text b => a.toList.isPrefixOf b.toList
  | .strictPrefixOf, .text a, .text b => a != b && a.toList.isPrefixOf b.toList
  | .strictSubstringOf, .text a, .text b => a != b && occursIn a.toList b.toList
  | .superset, .set a, .set b => b.all a.contains
  | .strictSuperset, .set a, .set b => a != b && b.all a.contains
  | .divides, .number a, .number b => a != b && dividesNumber a b
  | .dividesOrEquals, .number a, .number b => dividesNumber a b
  | .greater, .number a, .number b => b < a
  | .encloses, .span a, .span b => a.Encloses b
  | .strictlyEncloses, .span a, .span b => a.StrictlyEncloses b
  | .overlaps, .span a, .span b => a.Overlaps b
  | .always, _, _ => true
  | _, _, _ => false

/-- The answer of a table about a pair that was asked about `before` times. -/
def tableHolds (rows : List TableRow) (outer inner : UInt64) (before : Nat) : Bool :=
  match rows.reverse.find? fun row => row.outer == outer && row.inner == inner with
  | none => false
  | some row =>
    match row.times with
    | none => true
    | some (first, last) => first ≤ before && before < last

/-- The relation of a criterion; its state is the history of the questions to a table. -/
def relation (criterion : Criterion) : Relation Asked Item := fun outer inner =>
  match criterion, outer, inner with
  | .table rows, .number a, .number b => do
    let asked ← get
    set ((a, b) :: asked)
    return tableHolds rows a b (asked.count (a, b))
  | _, _, _ => return criterion.holds outer inner

end Criterion

end Laminar.Forest
