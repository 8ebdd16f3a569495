import Laminar.Coverage

/-!
# Settings

Settings come in layers, and each layer may leave any of them open. A layer goes over others by
setting what it does not leave open.
-/

namespace Laminar

/-- The settings of a run. -/
structure Settings where
  /-- Fragments stand for unclaimed bytes. -/
  fillGaps : Bool := true
  /-- What becomes of a tag that holds no byte. -/
  degenerate : DegeneratePolicy := .reject
  /-- How fragments are labelled. -/
  fragmentLabel : String := "fragment"
deriving DecidableEq

namespace Settings

/-- What one layer says about the settings. -/
structure Layer where
  /-- Fragments stand for unclaimed bytes. -/
  fillGaps : Option Bool := none
  /-- What becomes of a tag that holds no byte. -/
  degenerate : Option DegeneratePolicy := none
  /-- How fragments are labelled. -/
  fragmentLabel : Option String := none
deriving DecidableEq

/-- The settings with those of a layer over them. -/
def overlay (settings : Settings) (layer : Layer) : Settings :=
  ⟨layer.fillGaps.getD settings.fillGaps, layer.degenerate.getD settings.degenerate,
    layer.fragmentLabel.getD settings.fragmentLabel⟩

/-- The choices for a coverage. -/
def coverageOptions (settings : Settings) : Coverage.Options :=
  ⟨settings.fillGaps, settings.degenerate⟩

/-- The word for a policy. -/
def policyWord : DegeneratePolicy → String
  | .reject => "reject"
  | .skip => "skip"

/-- The policy that a word stands for. -/
def policy? (word : String) : Option DegeneratePolicy :=
  if word = "reject" then some .reject else if word = "skip" then some .skip else none

/-- The word of a policy stands for it. -/
@[simp]
theorem policy?_policyWord (policy : DegeneratePolicy) :
    policy? (policyWord policy) = some policy := by
  cases policy <;> rfl

end Settings

end Laminar
