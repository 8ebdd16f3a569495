import Laminar.Settings
import Laminar.Toml.Document

/-!
# Settings in files

Settings are written as a TOML document of three keys. A file may leave keys out, have them in any
order and have others, which mean nothing.
-/

namespace Laminar.Settings

/-- A truth value as it is written. -/
def booleanText (b : Bool) : String :=
  if b then "true" else "false"

/-- A text as it is written. -/
def stringText (text : String) : String :=
  String.ofList (Toml.Text.write text.toList)

/-- The settings as the text of a file. -/
def toToml (settings : Settings) : String :=
  "fill_gaps = " ++ booleanText settings.fillGaps ++ "\n" ++
    "degenerate = " ++ stringText (policyWord settings.degenerate) ++ "\n" ++
    "fragment_label = " ++ stringText settings.fragmentLabel ++ "\n"

/-- A truth value. -/
def booleanOf? : Toml.Value → Option Bool
  | .boolean b => some b
  | _ => none

/-- A text. -/
def textOf? : Toml.Value → Option String
  | .string text => some text
  | _ => none

/-- A value without content, as it may stand beside a policy's word. -/
def isVoid : Toml.Value → Bool
  | .table _ [] => true
  | .array [] => true
  | .tables [] => true
  | _ => false

/-- A policy: its word, or a table that has the word as its only key. -/
def policyOf? : Toml.Value → Option DegeneratePolicy
  | .string word => policy? word
  | .table _ [(word, content)] => if isVoid content then policy? word else none
  | _ => none

/-- What entries say under a key, if they have it; none at all if it is not of the right sort. -/
def entry? {α : Type} (decode : Toml.Value → Option α) (key : String) (entries : Toml.Entries) :
    Option (Option α) :=
  match entries.get? key with
  | none => some none
  | some value => (decode value).map some

/-- The layer that the text of a file holds. Keys without meaning are passed over. -/
def Layer.ofToml? (text : String) : Option Layer := do
  let entries ← Toml.Document.read? text
  let fillGaps ← entry? booleanOf? "fill_gaps" entries
  let degenerate ← entry? policyOf? "degenerate" entries
  let fragmentLabel ← entry? textOf? "fragment_label" entries
  return ⟨fillGaps, degenerate, fragmentLabel⟩

end Laminar.Settings
