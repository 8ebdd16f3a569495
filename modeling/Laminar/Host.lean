import Laminar.Path

/-!
# The host of a run

What a run can see of the machine that it runs on: files, environment variables and the current
directory. A host is a value, so a run is a function of it.
-/

namespace Laminar

/-- The sorts of faults of files. -/
inductive FileFault.Category
  | notFound
  | permissionDenied
  | invalidData
  | alreadyExists
  | other
deriving DecidableEq

/-- Why a file cannot be read. -/
structure FileFault where
  /-- The sort of the fault. -/
  category : FileFault.Category
  /-- The fault in the words of the system. -/
  message : String
deriving DecidableEq

namespace FileFault

/-- There is nothing at the path. -/
def missing : FileFault :=
  ⟨.notFound, "No such file or directory (os error 2)"⟩

/-- A directory where a file is needed. -/
def isDirectory : FileFault :=
  ⟨.other, "Is a directory (os error 21)"⟩

/-- A file where a directory is needed. -/
def notDirectory : FileFault :=
  ⟨.other, "Not a directory (os error 20)"⟩

/-- A name that is too long for the file system. -/
def nameTooLong : FileFault :=
  ⟨.other, "File name too long (os error 36)"⟩

/-- Bytes that are no text. -/
def notText : FileFault :=
  ⟨.invalidData, "stream did not contain valid UTF-8"⟩

end FileFault

/-- What a run can see of its machine. -/
structure Host where
  /-- The text of the file at a path. -/
  read : String → Except FileFault String
  /-- The length in bytes of what is at a path. -/
  length : String → Except FileFault UInt64
  /-- There is something at a path. -/
  present : String → Bool
  /-- The environment variables with their values. -/
  environment : List (String × String)
  /-- The path of the current directory. -/
  directory : String
  /-- The home directory of the user's account, for want of a variable that names another. -/
  accountHome : String

namespace Host

/-- The value of an environment variable. -/
def valueOf? (host : Host) (name : String) : Option String :=
  (host.environment.find? fun entry => entry.1 == name).map Prod.snd

/-- The home directory: the one that a variable names, unless it is empty. -/
def home (host : Host) : String :=
  match host.valueOf? "HOME" with
  | some path => if path = "" then host.accountHome else path
  | none => host.accountHome

/-- The directory for configuration files: an absolute path in its variable, or else the usual
place in the home directory. -/
def configBase (host : Host) : String :=
  match host.valueOf? "XDG_CONFIG_HOME" with
  | some path => if Path.isAbsolute path then path else Path.join host.home ".config"
  | none => Path.join host.home ".config"

end Host

end Laminar
