import Laminar.Grove

/-!
# Drawings

A grove drawn with one line for each label, in the order of the labels. A line has four
characters for every tree that it lies in, a bar where that tree has a right neighbour and blanks
where it has none, then a branch and the label's text.
-/

namespace Laminar.Grove

variable {α : Type}

/-- The branch to a tree that has a right neighbour. -/
def forkBranch : String := "├── "

/-- The branch to the last tree. -/
def lastBranch : String := "└── "

/-- What stands below the branch to a tree that has a right neighbour. -/
def forkMargin : String := "│   "

/-- What stands below the branch to the last tree. -/
def lastMargin : String := "    "

/-- The lines of a grove, each after `margin`. -/
def drawBelow (text : α → String) (margin : String) : Grove α → List String
  | nil => []
  | node label below beside =>
    let branch := if beside.isEmpty then lastBranch else forkBranch
    let inner := if beside.isEmpty then lastMargin else forkMargin
    (margin ++ branch ++ text label) ::
      (below.drawBelow text (margin ++ inner) ++ beside.drawBelow text margin)

/-- The lines of one tree; the line of its own label has no branch. -/
def drawTree (text : α → String) (label : α) (below : Grove α) : List String :=
  text label :: below.drawBelow text ""

/-- A function on labels changes a drawing as it changes the texts. -/
theorem drawBelow_map {β : Type} (text : β → String) (f : α → β) (margin : String) (g : Grove α) :
    (g.map f).drawBelow text margin = g.drawBelow (fun label => text (f label)) margin := by
  induction g generalizing margin with
  | nil => rfl
  | node label below beside inner later => simp only [map, drawBelow, isEmpty_map, inner, later]

/-- Lines as one text, each ended by a line feed. -/
def joinLines (lines : List String) : String :=
  String.join (lines.map (· ++ "\n"))

end Laminar.Grove
