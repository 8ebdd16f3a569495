import Laminar.Command.Arguments
import Laminar.Command.Failure
import Laminar.Settings.Load
import Laminar.Tag.Line

/-!
# Running commands

A command is a function of the host: it gives what it prints and, if it fails, why. Each file is
read, given a span and built on its own. Drawing stops at the first file that fails, checking goes
on and counts.
-/

namespace Laminar.Command

/-- What a command prints, and why it fails if it does. The text of completions is the work of a
generator that is no part of this library, so an outcome only names the shell it is for. -/
structure Outcome where
  /-- The printed lines. -/
  lines : List String
  /-- Why the command fails. -/
  failure : Option Failure := none
  /-- The shell whose completions are to be generated. -/
  completions : Option Shell := none

/-- The tags of a file. -/
def readTags (host : Host) (path : String) : Except Failure (List Tag) := do
  let text ← (host.read path).mapError (.file path)
  (Tag.ofText text).mapError (.input path)

/-- The last offset that some tags reach, zero for no tags. -/
def lastStop (tags : List Tag) : UInt64 :=
  tags.foldl (fun last tag => max last tag.span.stop) 0

/-- The span of a file: a size that is given, the length of a file that is given, or what the tags
reach. -/
def fileSpan (host : Host) (source : SpanSource) (tags : List Tag) : Except Failure Span :=
  match source.size, source.file with
  | some size, _ => .ok ⟨0, size⟩
  | none, some path => ((host.length path).mapError (.file path)).map fun length => ⟨0, length⟩
  | none, none => .ok ⟨0, lastStop tags⟩

/-- The coverage of the tags of a file. -/
def coverageOf (host : Host) (settings : Settings) (source : SpanSource) (path : String) :
    Except Failure Coverage := do
  let tags ← readTags host path
  let span ← fileSpan host source tags
  (Coverage.build tags span settings.coverageOptions).2.mapError (.input path)

/-! ## Actions -/

/-- The drawing of one file's coverage, under a heading if there are several files. -/
def treeLines (settings : Settings) (headed : Bool) (path : String) (coverage : Coverage) :
    List String :=
  (if headed then [path] else []) ++ [coverage.drawing settings.fragmentLabel]

/-- Draws the coverages of files up to the first that fails. -/
def drawAll (settings : Settings) (headed : Bool) :
    List (String × Except Failure Coverage) → Outcome
  | [] => { lines := [] }
  | (path, .ok coverage) :: rest =>
    let later := drawAll settings headed rest
    { later with lines := treeLines settings headed path coverage ++ later.lines }
  | (_, .error failure) :: _ => { lines := [], failure := some failure }

/-- Files with their coverages. -/
def coverages (host : Host) (settings : Settings) (source : SpanSource) (paths : List String) :
    List (String × Except Failure Coverage) :=
  paths.map fun path => (path, coverageOf host settings source path)

/-- Draws the coverages of files. -/
def tree (host : Host) (settings : Settings) (source : SpanSource) (paths : List String) :
    Outcome :=
  drawAll settings (1 < paths.length) (coverages host settings source paths)

/-- Lists the leaves of a file's coverage. -/
def leaves (host : Host) (settings : Settings) (source : SpanSource) (path : String) : Outcome :=
  match coverageOf host settings source path with
  | .ok coverage => { lines := coverage.leafLines settings.fragmentLabel }
  | .error failure => { lines := [], failure := some failure }

/-- The line about a checked file. -/
def checkLine (path : String) : Except Failure Coverage → String
  | .ok coverage =>
    "✓ " ++ path ++ ": " ++ Numeral.decimal coverage.nodeCount ++ " nodes, " ++
      Numeral.decimal coverage.fragmentCount ++ " fragments, depth " ++
      Numeral.decimal coverage.depth
  | .error failure => "✗ " ++ failure.message

/-- A file's coverage could not be built. -/
def failed : Except Failure Coverage → Bool
  | .ok _ => false
  | .error _ => true

/-- Checks files. -/
def check (host : Host) (settings : Settings) (source : SpanSource) (paths : List String) :
    Outcome :=
  let results := coverages host settings source paths
  let count := results.countP fun result => failed result.2
  { lines := results.map fun result => checkLine result.1 result.2
    failure := if count = 0 then none else some (.check count paths.length) }

/-- Shows the paths of the files of settings. -/
def showPaths (host : Host) (directory : String) : Outcome :=
  { lines := ["  global: " ++ Settings.globalPath host,
      "  local:  " ++ Settings.localPath directory] }

/-- Does what an invocation asks for, under the settings and with the directory of the local
file of settings. -/
def perform (host : Host) (settings : Settings) (directory : String) : Option Action → Outcome
  | some (.tree paths source) => tree host settings source paths
  | some (.leaves path source) => leaves host settings source path
  | some (.check paths source) => check host settings source paths
  | some .showSettings => { lines := [settings.toToml] }
  | some .showPaths => showPaths host directory
  | some (.completion shell) => { lines := [], completions := some shell }
  | none => { lines := [], failure := some (.arguments "no command given, see --help") }

/-- The settings of an invocation: those that are loaded, with the options over them. -/
def settingsFor (host : Host) (invocation : Invocation) : Except Failure Settings := do
  let directory := invocation.configDirectory.getD host.directory
  let loaded ← (Settings.load host (some directory)).mapError .settings
  return loaded.overlay
    { fillGaps := if invocation.noFill then some false else none
      degenerate := if invocation.skipDegenerate then some .skip else none }

/-- Runs an invocation on a host. -/
def run (host : Host) (invocation : Invocation) : Outcome :=
  match settingsFor host invocation with
  | .ok settings =>
    perform host settings (invocation.configDirectory.getD host.directory) invocation.action
  | .error failure => { lines := [], failure := some failure }

/-! ## Streams -/

/-- What a run prints on its two streams, and its exit code. -/
structure Report where
  /-- The text on standard output, without the completions. -/
  output : String
  /-- The shell whose completions follow on standard output. -/
  completions : Option Shell
  /-- The text on standard error. -/
  errors : String
  /-- The exit code. -/
  exitCode : Nat

/-- The report of an outcome. -/
def Outcome.report (outcome : Outcome) : Report where
  output := Grove.joinLines outcome.lines
  completions := outcome.completions
  errors := match outcome.failure with
    | some failure => "error: " ++ failure.message ++ "\n"
    | none => ""
  exitCode := match outcome.failure with
    | some failure => failure.exitCode
    | none => 0

/-- The version of a verb. -/
def versionText (words : List String) : String :=
  "-".intercalate words ++ " 0.1.0\n"

end Laminar.Command
