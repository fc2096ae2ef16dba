import PipelineManifest.CommandLine.Options
import PipelineManifest.Describe
import PipelineManifest.Validation

/-!
# `PipelineManifest.CommandLine.Run`: the two commands

`validate` reports all faults of a manifest, `describe` says what it holds. Both write text or
JSON. The log goes to standard output, before everything else, or to standard error when
standard output takes JSON.

* `Invocation`, `Invocation.ofArguments?`: what the arguments ask for.
* `Screen`: what a command writes, and how it ends.
* `validate`, `describe`: the commands.
* `run`: the whole program, as a function of the files, the environment and the arguments.
-/

set_option autoImplicit false

namespace PipelineManifest.CommandLine

/-! ### Arguments -/

/-- The commands. -/
inductive Command where
  | validate
  | describe
  deriving DecidableEq, Repr

/-- The command of a name. -/
def Command.ofName? (name : String) : Option Command :=
  if name = "validate" then some .validate
  else if name = "describe" then some .describe
  else none

/-- What the arguments ask for. -/
inductive Invocation where
  | help
  | version
  | run (logLevel : Option String) (command : Command) (path output : String)

/-- The option that asks for help. -/
def helpOption : OptionSpec := { name := "help", takesValue := false }

/-- The options before the command. -/
def programOptions : List OptionSpec :=
  [{ name := "log-level" }, { name := "version", takesValue := false }, helpOption]

/-- The options of both commands. -/
def commandOptions : List OptionSpec :=
  [{ name := "manifest", letter := some 'm' }, { name := "output", letter := some 'o' },
    helpOption]

/-- The file that is read unless another one is named. -/
def defaultPath : String := ".drone.yml"

/-- The output that is written unless another one is asked for. -/
def defaultOutput : String := "TEXT"

/-- What the arguments of a command ask for. -/
def Invocation.ofCommand? (logLevel : Option String) (command : Command) (args : List String) :
    Option Invocation := do
  let (settings, others) ← readOptions? commandOptions true args
  -- Help is given even where other arguments make no sense.
  if settings.any (·.name = "help") then return .help
  if !others.isEmpty then none
  return .run logLevel command ((lastValue? settings "manifest").getD defaultPath)
    ((lastValue? settings "output").getD defaultOutput)

/-- What the arguments ask for; nothing if they are not understood. -/
def Invocation.ofArguments? (args : List String) : Option Invocation := do
  let (settings, others) ← readOptions? programOptions false args
  -- The first of the two answers, and nothing behind it is looked at.
  match settings.find? fun s => s.name = "help" || s.name = "version" with
  | some s => return if s.name = "help" then .help else .version
  | none =>
    match others with
    | [] => none
    | name :: args => ofCommand? (lastValue? settings "log-level") (← Command.ofName? name) args

/-! ### Output -/

/-- What a command writes, and how it ends. -/
structure Screen where
  exitCode : Nat := 0
  stdout : String := ""
  stderr : String := ""
  /-- The fault that ended the program, if it was not reported. -/
  uncaught : Option Fault := none

/-- Skips the parameters of a terminal sequence up to the letter that ends it. -/
def skipSequence? : List Char → Option (List Char)
  | [] => none
  | c :: cs =>
    if c.isAlpha then some cs
    else if c = ';' || c = '?' || c.isDigit then skipSequence? cs
    else none

/-- A text without terminal sequences, each of which takes a character at least. -/
def withoutSequencesFrom : (fuel : Nat) → List Char → List Char
  | 0, cs => cs
  | _ + 1, [] => []
  | fuel + 1, c :: cs =>
    let kept := c :: withoutSequencesFrom fuel cs
    match c, cs with
    -- A sequence starts with escape and bracket; one that does not end stays as it is.
    | '\x1b', '[' :: rest =>
      match skipSequence? rest with
      | some rest => withoutSequencesFrom fuel rest
      | none => kept
    | _, _ => kept

/-- A text without terminal sequences. -/
def withoutSequences (s : String) : String :=
  String.ofList (withoutSequencesFrom (s.length + 1) s.toList)

/-- A line of a report. -/
def reportLine (s : String) : String := withoutSequences s ++ "\n"

/-- Lines of a report. -/
def reportLines (lines : List String) : String := String.join (lines.map reportLine)

/-- An error that ends a command. -/
def errorScreen (message : String) : Screen :=
  { exitCode := 1, stderr := reportLine ("❌ Error: " ++ message) }

/-- The end of the program at a fault that is not reported, after some output. -/
def uncaughtScreen (stdout : String) (fault : Fault) : Screen :=
  { exitCode := 1, stdout, uncaught := some fault }

/-- How a command writes. -/
inductive Format where
  | text
  | json
  deriving DecidableEq, Repr

/-- The format of a name, in any letter case; no name at all stands for text. -/
def Format.ofName? (name : String) : Option Format :=
  let name := upperCase (if name = "" then defaultOutput else name)
  if name = "TEXT" then some .text else if name = "JSON" then some .json else none

/-! ### Commands -/

/-- The report of a validation as JSON. -/
def validationJson (path : String) (v : Validation) : Json := .object [
  ("manifest", .str path), ("valid", .bool v.isValid), ("resources", .int v.size),
  ("errors", .array (v.errors.map .str))]

/-- The report of a validation. -/
def validationScreen (path : String) (format : Format) (v : Validation) : Screen :=
  let exitCode := if v.isValid then 0 else 1
  match format with
  | .json => { exitCode, stdout := reportLine (validationJson path v).render }
  | .text =>
    if v.isValid then
      { exitCode, stdout :=
          reportLine ("✅ " ++ path ++ " is valid (" ++ toString v.size ++ " resources)") }
    else
      { exitCode, stderr := reportLines
          (("❌ " ++ path ++ " has " ++ toString v.errors.length ++ " invalid document(s):")
            :: v.errors.map ("  - " ++ ·)) }

/-- Validates a manifest and reports all faults. -/
def validate (files : Files) (path : String) (format : Format) : Logged Screen :=
  let validated := Validation.ofFile defaultRegistry files path
  let screen := match validated.result with
    | .ok v => validationScreen path format v
    | .error fault => uncaughtScreen "" fault
  ⟨screen, defaultRegistryLog ++ validated.log⟩

/-- Pipelines as text, one after the other; a table that cannot be laid out ends the output. -/
def describePipelines (before : String) : List Pipeline → Screen
  | [] => { stdout := before }
  | p :: ps =>
    let before := before ++ reportLines p.describeHead
    match p.stepTable with
    | .error fault => uncaughtScreen before fault
    | .ok lines => describePipelines (before ++ String.join (lines.map (· ++ "\n"))) ps

/-- A description of a manifest. -/
def descriptionScreen (path : String) (format : Format) (m : Manifest) : Screen :=
  match format with
  | .json =>
    match m.describeJson path with
    | .ok j => { stdout := reportLine j.render }
    | .error fault => uncaughtScreen "" fault
  | .text => describePipelines (reportLines (m.describeHead path)) m.sshPipelines

/-- Describes a manifest, unless a document is bad. -/
def describe (files : Files) (path : String) (format : Format) : Logged Screen :=
  let parsed := Manifest.parseFile defaultRegistry files path
  let screen := match parsed.result with
    | .ok m => descriptionScreen path format m
    | .error (.fileMissing message) => errorScreen message
    | .error fault =>
      if fault.isManifestFault then
        errorScreen ("Invalid manifest " ++ path ++ ": " ++ fault.message?.getD "")
      else uncaughtScreen "" fault
  ⟨screen, defaultRegistryLog ++ parsed.log⟩

/-- Runs a command. -/
def Command.run (c : Command) (files : Files) (path output : String) : Logged Screen :=
  match Format.ofName? output with
  | none =>
    ⟨errorScreen ("Unsupported output format '" ++ output ++ "'. Use TEXT or JSON"), []⟩
  | some format =>
    match c with
    | .validate => CommandLine.validate files path format
    | .describe => CommandLine.describe files path format

/-! ### The program -/

/-- The name and the version of the program. -/
def versionText : String := "ssh-runner 1.0.0"

/-- How the program is called. -/
def helpText : String := "Usage: ssh-runner [--log-level LEVEL] [--version] [--help]" ++
  " (validate | describe) [-m PATH | --manifest PATH] [-o FORMAT | --output FORMAT]"

/-- A line of the log. -/
def logLine (time : String) (e : LogEntry) : String :=
  time ++ " - " ++ e.logger ++ " - " ++ e.level.name ++ " - " ++ e.message ++ "\n"

/-- The screen of a command with its log in front of what the command writes. -/
def withLog (setup : LogSetup) (time : String) (l : Logged Screen) : Screen :=
  let shown := l.log.filter (·.isShown setup.threshold)
  let log := String.join (shown.map (logLine time))
  if setup.toStandardError then { l.result with stderr := log ++ l.result.stderr }
  else { l.result with stdout := log ++ l.result.stdout }

/-- Does what the arguments ask for. `env` is the log level of the environment, and `time` the
text that stands for the time in the log. -/
def Invocation.perform (files : Files) (env : Option String) (time : String) :
    Invocation → Screen
  | help => { stdout := reportLine helpText }
  | version => { stdout := reportLine versionText }
  | run logLevel command path output =>
    match LogSetup.ofName (levelName logLevel env) (upperCase output = "JSON") with
    | .error fault => uncaughtScreen "" fault
    | .ok setup => withLog setup time (command.run files path output)

/-- The program. Arguments that are not understood end it at once. -/
def run (files : Files) (env : Option String) (time : String) (args : List String) : Screen :=
  match Invocation.ofArguments? args with
  | some invocation => invocation.perform files env time
  | none => { exitCode := 2 }

end PipelineManifest.CommandLine
