import Laminar.Command.Size

/-!
# Arguments

The arguments of a run are read from left to right, one verb inside the other. An option that
needs a value takes the next argument unless that looks like an option, and it is settled, with
all faults of its value, when the next option or operand begins or the arguments end. After two
dashes everything is an operand. The first fault in this order decides.
-/

namespace Laminar.Command

/-- What a run is asked to do, each verb with those it stands in. -/
inductive Verb
  | top
  | tree
  | leaves
  | check
  | config
  | configShow
  | configPath
  | completion
deriving DecidableEq

/-- An option. -/
inductive Switch
  | debug
  | configDirectory
  | noFill
  | skipDegenerate
  | size
  | file
  | help
  | version
deriving DecidableEq

/-- What a verb takes apart from options. -/
inductive Operands
  /-- Nothing. -/
  | none
  /-- One path. -/
  | path
  /-- Paths, at least one. -/
  | paths
  /-- The name of a shell. -/
  | shell
deriving DecidableEq

/-- A shell that completions are for. -/
inductive Shell
  | bash
  | elvish
  | fish
  | powershell
  | zsh
deriving DecidableEq

/-- Why reading the arguments ends a run. -/
inductive Usage
  /-- The help text is asked for. -/
  | help
  /-- The help text is shown because nothing is asked for. -/
  | helpForMissing
  /-- The version of the verb with these words is asked for. -/
  | version (words : List String)
  /-- An option or operand that the verb does not have. -/
  | unknownArgument
  /-- A word that is no verb where one has to be. -/
  | invalidSubcommand
  /-- No verb where one has to be. -/
  | missingSubcommand
  /-- No operand where one has to be. -/
  | missingRequired
  /-- Two options that exclude each other, or one of them twice. -/
  | conflict
  /-- A value for an option that takes none. -/
  | tooManyValues
  /-- A value that is missing, empty or not one of those there are. -/
  | invalidValue
  /-- A size that is none. -/
  | sizeFault (fault : SizeFault)
deriving DecidableEq

/-- Asking for help or a version is no mistake; everything else is. -/
def Usage.exitCode : Usage → Nat
  | .help => 0
  | .version _ => 0
  | _ => 2

/-! ## Verbs and options -/

/-- The words that lead to a verb, the program's name first. -/
def Verb.words : Verb → List String
  | .top => ["finter"]
  | .tree => ["finter", "tree"]
  | .leaves => ["finter", "leaves"]
  | .check => ["finter", "check"]
  | .config => ["finter", "config"]
  | .configShow => ["finter", "config", "show"]
  | .configPath => ["finter", "config", "path"]
  | .completion => ["finter", "completion"]

/-- The verbs that can follow a verb, by their words. -/
def Verb.inner : Verb → List (String × Verb)
  | .top => [("tree", .tree), ("leaves", .leaves), ("check", .check), ("config", .config),
      ("completion", .completion)]
  | .config => [("show", .configShow), ("path", .configPath)]
  | _ => []

/-- The verb that a word leads to. -/
def Verb.inner? (verb : Verb) (word : String) : Option Verb :=
  (verb.inner.find? fun entry => entry.1 == word).map Prod.snd

/-- A verb that others follow also knows the word that asks for help about them. -/
def Verb.hasHelp (verb : Verb) : Bool :=
  ! verb.inner.isEmpty

/-- What a verb takes apart from options. -/
def Verb.operands : Verb → Operands
  | .tree => .paths
  | .check => .paths
  | .leaves => .path
  | .completion => .shell
  | _ => .none

/-- A verb reads tags, so it has the options for the size of a file. -/
def Verb.readsTags : Verb → Bool
  | .tree => true
  | .check => true
  | .leaves => true
  | _ => false

/-- An option is one of a verb. -/
def Verb.has (verb : Verb) : Switch → Bool
  | .size => verb.readsTags
  | .file => verb.readsTags
  | _ => true

/-- The option that a long name stands for. -/
def Switch.ofLong? : String → Option Switch
  | "debug" => some .debug
  | "config-dir" => some .configDirectory
  | "no-fill" => some .noFill
  | "skip-degenerate" => some .skipDegenerate
  | "size" => some .size
  | "file" => some .file
  | "help" => some .help
  | "version" => some .version
  | _ => none

/-- The option that a letter stands for. -/
def Switch.ofShort? : Char → Option Switch
  | 'd' => some .debug
  | 'C' => some .configDirectory
  | 's' => some .size
  | 'f' => some .file
  | 'h' => some .help
  | 'V' => some .version
  | _ => none

/-- An option needs a value. -/
def Switch.takesValue : Switch → Bool
  | .configDirectory => true
  | .size => true
  | .file => true
  | _ => false

/-- The shell that a word stands for. -/
def Shell.ofWord? : String → Option Shell
  | "bash" => some .bash
  | "elvish" => some .elvish
  | "fish" => some .fish
  | "powershell" => some .powershell
  | "zsh" => some .zsh
  | _ => none

/-! ## Reading -/

/-- What has been settled for one verb. -/
structure Level where
  /-- The verb. -/
  verb : Verb
  /-- The options that were given. -/
  given : List Switch := []
  /-- The directory for the local file of settings. -/
  configDirectory : Option String := none
  /-- The size of the file. -/
  size : Option UInt64 := none
  /-- The file whose length is the size. -/
  file : Option String := none
  /-- The operands. -/
  operands : List String := []

/-- What has been read and not been settled yet. -/
inductive Pending
  /-- Nothing. -/
  | nothing
  /-- An option with its value, if that has been read. -/
  | option (switch : Switch) (value : Option String)
  /-- Operands. -/
  | operands (values : List String)

/-- An option still waits for its value. -/
def Pending.waiting? : Pending → Option Switch
  | .option switch none => some switch
  | _ => none

namespace Level

/-- The level with one more option given. An option other than the one for debugging may be given
only once. -/
def give (level : Level) (switch : Switch) : Except Usage Level :=
  if switch ≠ .debug ∧ switch ∈ level.given then .error .conflict
  else .ok { level with given := level.given ++ [switch] }

/-- The level with an option set to a value. -/
def set (level : Level) (switch : Switch) (value : String) : Except Usage Level := do
  let level ← level.give switch
  match switch with
  | .size =>
    match Command.size value with
    | .ok size => return { level with size := some size }
    | .error fault => .error (.sizeFault fault)
  | .file => if value = "" then .error .invalidValue else return { level with file := some value }
  | .configDirectory =>
    if value = "" then .error .invalidValue
    else return { level with configDirectory := some value }
  | _ => return level

/-- An operand is one that the verb can have. -/
def accepts (level : Level) (value : String) : Bool :=
  match level.verb.operands with
  | .shell => (Shell.ofWord? value).isSome
  | _ => value ≠ ""

/-- The level with what was pending settled. -/
def settle (level : Level) : Pending → Except Usage Level
  | .nothing => .ok level
  | .option _ none => .error .invalidValue
  | .option switch (some value) => level.set switch value
  | .operands values =>
    if values.all level.accepts then .ok { level with operands := level.operands ++ values }
    else .error .invalidValue

/-- The level with an option without value given; some of these end the run. -/
def raise (level : Level) (pending : Pending) (switch : Switch) : Except Usage Level := do
  let level ← level.settle pending
  match switch with
  | .help => .error .help
  | .version => .error (.version level.verb.words)
  | _ => level.give switch

/-- What a verb needs in the end: its own verb, no two ways to say the size, and its operands. -/
def validate (level : Level) (hasInner : Bool) : Except Usage Unit :=
  if level.verb = .config ∧ ! hasInner then
    .error (if level.given.isEmpty then .helpForMissing else .missingSubcommand)
  else if .size ∈ level.given ∧ .file ∈ level.given then .error .conflict
  else if level.verb.operands ≠ .none ∧ level.operands.isEmpty then .error .missingRequired
  else .ok ()

/-- The levels from this one on, once all arguments have been read. -/
def finish (level : Level) (pending : Pending) (inner : List Level) :
    Except Usage (List Level) := do
  let level ← level.settle pending
  level.validate (! inner.isEmpty)
  return level :: inner

/-- The option of a level that a long name stands for. -/
def long? (level : Level) (name : String) : Option Switch :=
  (Switch.ofLong? name).filter level.verb.has

/-- The option of a level that a letter stands for. -/
def short? (level : Level) (letter : Char) : Option Switch :=
  (Switch.ofShort? letter).filter level.verb.has

/-- An option by its long name, with the value that an equals sign attaches to it. -/
def readLong (level : Level) (pending : Pending) (name : String) (value : Option String) :
    Except Usage (Level × Pending) :=
  match level.long? name with
  | none => .error .unknownArgument
  | some switch =>
    match switch.takesValue, value with
    | true, some value => do
      let level ← level.settle pending
      return (← level.set switch value, .nothing)
    | true, none => do
      return (← level.settle pending, .option switch none)
    | false, some _ => .error .tooManyValues
    | false, none => do
      return (← level.raise pending switch, .nothing)

/-- The value that letters attach to an option; an equals sign before it is left out. -/
def attached? : List Char → Option String
  | [] => none
  | '=' :: value => some (String.ofList value)
  | value => some (String.ofList value)

/-- Options by their letters, the last of which can have its value attached. -/
def readShort (level : Level) (pending : Pending) : List Char → Except Usage (Level × Pending)
  | [] => .ok (level, pending)
  | letter :: rest =>
    match level.short? letter with
    | none => .error .unknownArgument
    | some switch =>
      if switch.takesValue then do
        let level ← level.settle pending
        match attached? rest with
        | some value => return (← level.set switch value, .nothing)
        | none => return (level, .option switch none)
      else do
        let level ← level.raise pending switch
        level.readShort .nothing rest

/-- A word that is neither option nor verb. -/
def readOperand (level : Level) (pending : Pending) (trailing : Bool) (word : String) :
    Except Usage (Level × Pending) :=
  match level.verb.operands, pending with
  | .none, _ =>
    if level.verb.hasHelp ∧ ! (trailing ∧ (word = "help" ∨ (level.verb.inner? word).isSome)) then
      .error .invalidSubcommand
    else .error .unknownArgument
  | .paths, .operands values => .ok (level, .operands (values ++ [word]))
  | .paths, pending => do
    return (← level.settle pending, .operands [word])
  | _, .operands _ => .error .unknownArgument
  | _, pending =>
    if level.operands.isEmpty then do
      return (← level.settle pending, .operands [word])
    else .error .unknownArgument

end Level

/-- The form of an argument. -/
inductive Form
  /-- Two dashes. -/
  | separator
  /-- A long name and the value after an equals sign. -/
  | long (name : String) (value : Option String)
  /-- Letters. -/
  | short (letters : List Char)
  /-- Any other word. -/
  | plain

/-- The form that an argument has. -/
def formOf (word : List Char) : Form :=
  match word with
  | ['-', '-'] => .separator
  | '-' :: '-' :: rest =>
    let name := String.ofList (rest.takeWhile (· ≠ '='))
    match rest.dropWhile (· ≠ '=') with
    | [] => .long name none
    | _ :: value => .long name (some (String.ofList value))
  | '-' :: c :: rest => .short (c :: rest)
  | _ => .plain

/-- Help about the verb that words lead to. -/
def helpAbout (verb : Verb) : List String → Usage
  | [] => .help
  | ["help"] => if verb.hasHelp then .help else .invalidSubcommand
  | word :: rest =>
    match verb.inner? word with
    | some inner => helpAbout inner rest
    | none => .invalidSubcommand

/-- Reads the arguments of a level and of those within it. -/
def readLevels (level : Level) (pending : Pending) (trailing : Bool) :
    List String → Except Usage (List Level)
  | [] => level.finish pending []
  | word :: rest =>
    if trailing then do
      let (level, pending) ← level.readOperand pending true word
      readLevels level pending true rest
    else
      match pending.waiting?, level.verb.inner? word with
      | none, some verb => do
        let inner ← readLevels { verb } .nothing false rest
        level.finish pending inner
      | waiting, _ =>
        if waiting.isNone ∧ word = "help" ∧ level.verb.hasHelp then
          .error (helpAbout level.verb rest)
        else
          match formOf word.toList with
          | .separator => readLevels level pending true rest
          | .long name value => do
            let (level, pending) ← level.readLong pending name value
            readLevels level pending false rest
          | .short letters => do
            let (level, pending) ← level.readShort pending letters
            readLevels level pending false rest
          | .plain =>
            match waiting with
            | some switch => readLevels level (.option switch (some word)) false rest
            | none => do
              let (level, pending) ← level.readOperand pending false word
              readLevels level pending false rest

/-! ## Invocations -/

/-- Where the span of a file comes from. -/
structure SpanSource where
  /-- Its size. -/
  size : Option UInt64 := none
  /-- A file whose length is its size. -/
  file : Option String := none
deriving DecidableEq

/-- What a run is to do. -/
inductive Action
  /-- Draw the coverages of files. -/
  | tree (paths : List String) (source : SpanSource)
  /-- List the leaves of a file's coverage. -/
  | leaves (path : String) (source : SpanSource)
  /-- Check files. -/
  | check (paths : List String) (source : SpanSource)
  /-- Show the settings. -/
  | showSettings
  /-- Show the paths of the files of settings. -/
  | showPaths
  /-- Write completions for a shell. -/
  | completion (shell : Shell)
deriving DecidableEq

/-- What the arguments of a run ask for. -/
structure Invocation where
  /-- The directory for the local file of settings. -/
  configDirectory : Option String
  /-- No fragments are to stand for unclaimed bytes. -/
  noFill : Bool
  /-- Tags that hold no byte are to be left out. -/
  skipDegenerate : Bool
  /-- What to do, if anything. -/
  action : Option Action
deriving DecidableEq

/-- What the innermost level asks for. -/
def Level.action? (level : Level) : Option Action :=
  let source : SpanSource := ⟨level.size, level.file⟩
  match level.verb, level.operands with
  | .tree, paths => some (.tree paths source)
  | .check, paths => some (.check paths source)
  | .leaves, path :: _ => some (.leaves path source)
  | .configShow, _ => some .showSettings
  | .configPath, _ => some .showPaths
  | .completion, word :: _ => (Shell.ofWord? word).map .completion
  | _, _ => none

/-- What some levels ask for together. An option counts on whatever level it is given; of several
directories the innermost counts. -/
def Invocation.ofLevels (levels : List Level) : Invocation where
  configDirectory := (levels.filterMap Level.configDirectory).getLast?
  noFill := levels.any fun level => .noFill ∈ level.given
  skipDegenerate := levels.any fun level => .skipDegenerate ∈ level.given
  action := levels.getLast?.bind Level.action?

/-- What the arguments of a run ask for, or why they end it. -/
def Invocation.ofArguments (arguments : List String) : Except Usage Invocation :=
  (readLevels { verb := .top } .nothing false arguments).map Invocation.ofLevels

end Laminar.Command
