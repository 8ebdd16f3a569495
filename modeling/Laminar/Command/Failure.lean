import Laminar.HierarchyError
import Laminar.Settings.Fault

/-!
# Failures of commands

Why a command does not do what it is asked, in words and as an exit code. The codes are those of
the mail system's conventions, apart from the one for a check that finds problems.
-/

namespace Laminar.Command

/-- Why a command fails. -/
inductive Failure
  /-- The tags of a file have no hierarchy. -/
  | input (path : String) (error : HierarchyError)
  /-- Tags from elsewhere have no hierarchy. -/
  | hierarchy (error : HierarchyError)
  /-- A file cannot be read. -/
  | file (path : String) (fault : FileFault)
  /-- There are no settings. -/
  | settings (fault : Settings.Fault)
  /-- Some of the checked files have problems. -/
  | check (failed total : Nat)
  /-- The arguments ask for nothing that can be done. -/
  | arguments (message : String)
deriving DecidableEq

namespace Failure

/-- The wording of a failure. -/
def message : Failure → String
  | input path error => path ++ ": " ++ error.message
  | hierarchy error => error.message
  | file path fault => path ++ ": " ++ fault.message
  | settings fault => "config error: " ++ fault.message
  | check failed total =>
    Numeral.decimal failed ++ " of " ++ Numeral.decimal total ++ " inputs failed the check"
  | arguments message => "invalid arguments: " ++ message

/-- The exit code for a fault of a file: a file that is not there or may not be read is a matter
of the input, all else one of the system. -/
def fileCode : FileFault.Category → Nat
  | .notFound => 66
  | .permissionDenied => 66
  | _ => 74

/-- The exit code of a failure. -/
def exitCode : Failure → Nat
  | input _ _ => 65
  | hierarchy _ => 65
  | file _ fault => fileCode fault.category
  | settings _ => 78
  | check _ _ => 1
  | arguments _ => 64

end Failure

end Laminar.Command
