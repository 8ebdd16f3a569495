import Laminar.Host
import Laminar.Text.Quoted

/-!
# Faults of settings

Why there are no settings: a file that cannot be read or does not hold any, or an environment that
says what cannot be.
-/

namespace Laminar.Settings

/-- What the environment can say under a name. -/
inductive Variable
  /-- A text. -/
  | text (value : String)
  /-- Parts under further names. -/
  | parts
  /-- Parts under numbers. -/
  | items
deriving DecidableEq

/-- Why there are no settings. -/
inductive Fault
  /-- A file that is there cannot be read. -/
  | unreadable (path : String) (fault : FileFault)
  /-- A file does not hold settings. -/
  | malformed (path : String)
  /-- The environment does not say yes or no about gaps. -/
  | notBoolean (found : Variable)
  /-- The environment names no policy. -/
  | unknownPolicy (word : String)
  /-- A fault from outside, in its own words. -/
  | other (message : String)
deriving DecidableEq

/-- The wording for a value of the wrong sort. -/
def Variable.message : Variable → String
  | .text value => "string " ++ Text.quote value
  | .parts => "map"
  | .items => "sequence"

/-- Where a value of the environment comes from; parts are put together and come from nowhere. -/
def Variable.place : Variable → String
  | .text _ => " in the environment"
  | _ => ""

/-- The wording of a fault. -/
def Fault.message : Fault → String
  | .unreadable path fault => "read " ++ path ++ ": " ++ fault.message
  | .malformed path => "parse " ++ path ++ ": TOML parse error"
  | .notBoolean found =>
    "FINTER_FILL_GAPS: invalid type: " ++ found.message ++
      ", expected a boolean for key \x60fill_gaps\x60" ++ found.place
  | .unknownPolicy word => "FINTER_DEGENERATE: expected reject|skip, got " ++ Text.quote word
  | .other message => message

end Laminar.Settings
