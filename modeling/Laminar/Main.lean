import Laminar.Command.Run

/-!
# The command line

The outer layer: it reads the arguments, the environment and the files that a run needs, hands them
to the run as a host, and prints what the run reports. Help, complaints about arguments and the
completions of a shell have their texts from elsewhere: of these only the exit code is given.
-/

namespace Laminar.Main

open Laminar.Command

/-- The fault that an error of the system stands for. -/
def faultOf : IO.Error → FileFault
  | .noFileOrDirectory .. => .missing
  | .permissionDenied .. => ⟨.permissionDenied, "Permission denied (os error 13)"⟩
  | .inappropriateType .. => .isDirectory
  | error => ⟨.other, toString error⟩

/-- What is found at a path. -/
def look (path : String) : IO (String × Except FileFault ByteArray) := do
  try
    return (path, .ok (← IO.FS.readBinFile path))
  catch error =>
    return (path, .error (faultOf error))

/-- The environment variables with their values. -/
def environment : IO (List (String × String)) := do
  let (_, found) ← look "/proc/self/environ"
  let text := match found with
    | .ok bytes => (String.fromUTF8? bytes).getD ""
    | .error _ => ""
  return (text.toList.splitOn '\x00').filterMap fun entry =>
    match entry.dropWhile (· ≠ '=') with
    | [] => none
    | _ :: value => some (String.ofList (entry.takeWhile (· ≠ '=')), String.ofList value)

/-- The files that an action reads. -/
def pathsOf : Option Action → List String
  | some (.tree paths source) => paths ++ source.file.toList
  | some (.check paths source) => paths ++ source.file.toList
  | some (.leaves path source) => path :: source.file.toList
  | _ => []

/-- What was found at a path, nothing for a path that was not looked at. -/
def found (files : List (String × Except FileFault ByteArray)) (path : String) :
    Except FileFault ByteArray :=
  match files.find? fun entry => entry.1 == path with
  | some (_, content) => content
  | none => .error .missing

/-- The text of what was found at a path. -/
def textAt (files : List (String × Except FileFault ByteArray)) (path : String) :
    Except FileFault String := do
  match String.fromUTF8? (← found files path) with
  | some text => return text
  | none => .error .notText

/-- There is something at a path, even if it cannot be read. -/
def isThere (files : List (String × Except FileFault ByteArray)) (path : String) : Bool :=
  match found files path with
  | .ok _ => true
  | .error fault => fault.category ≠ .notFound

/-- The machine as a run sees it, with the given files looked at. -/
def hostWith (files : List (String × Except FileFault ByteArray))
    (environment : List (String × String)) (directory : String) : Host where
  read := textAt files
  length path := (found files path).map fun bytes => bytes.size.toUInt64
  present := isThere files
  environment := environment
  directory := directory
  accountHome := "/"

/-- The text for a run that its arguments end: the version that is asked for. What a parser of
arguments says about the others is its own and is left out. -/
def usageText : Usage → String
  | .version words => versionText words
  | _ => ""

/-- Prints a text on one of the streams. -/
def printTo (stream : IO.FS.Stream) (text : String) : IO Unit := do
  stream.putStr text
  stream.flush

end Laminar.Main

open Laminar Laminar.Main Laminar.Command in
/-- Runs the program on its arguments. -/
def main (arguments : List String) : IO UInt32 := do
  match Invocation.ofArguments arguments with
  | .error usage =>
    printTo (← if usage.exitCode = 0 then IO.getStdout else IO.getStderr) (usageText usage)
    return usage.exitCode.toUInt32
  | .ok invocation =>
    let environment ← environment
    let directory := toString (← IO.currentDir)
    let bare := hostWith [] environment directory
    let settingsPaths := [Settings.globalPath bare,
      Settings.localPath (invocation.configDirectory.getD directory)]
    let files ← (settingsPaths ++ pathsOf invocation.action).mapM look
    let report := (run (hostWith files environment directory) invocation).report
    printTo (← IO.getStdout) report.output
    printTo (← IO.getStderr) report.errors
    return report.exitCode.toUInt32
