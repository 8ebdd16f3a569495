import Laminar.Settings.Environment
import Laminar.Settings.File

/-!
# Loading settings

A global file, a local file and the environment go over the defaults in this order. A file that is
not there says nothing. A fault in a layer counts even if a later layer would hide what it sets,
and the first fault in the order of the layers decides.
-/

namespace Laminar.Settings

/-- The path of the global file. -/
def globalPath (host : Host) : String :=
  Path.join (Path.join host.configBase "finter") "finter.toml"

/-- The path of the local file of a directory. -/
def localPath (directory : String) : String :=
  Path.join directory ".finter.toml"

/-- The layer of a file; one that is not there says nothing. -/
def Layer.ofFile (host : Host) (path : String) : Except Fault Layer :=
  if host.present path then
    match host.read path with
    | .error fault => .error (.unreadable path fault)
    | .ok text =>
      match Layer.ofToml? text with
      | some layer => .ok layer
      | none => .error (.malformed path)
  else .ok {}

/-- The settings on a host, with the local file of a directory if one is given. -/
def load (host : Host) (directory : Option String) : Except Fault Settings := do
  let overall ← Layer.ofFile host (globalPath host)
  let nearby ← match directory with
    | some directory => Layer.ofFile host (localPath directory)
    | none => .ok {}
  let ambient ← Layer.ofEnvironment host.environment
  let defaults : Settings := {}
  return ((defaults.overlay overall).overlay nearby).overlay ambient

end Laminar.Settings
