import PipelineManifest.CommandLine.Run
import Std.Time

/-!
# `PipelineManifest.Main`: the program

Reads the file that the arguments name, does what they ask for, and writes what comes of
it. -/

set_option autoImplicit false

open PipelineManifest PipelineManifest.CommandLine

/-- The variable of the environment that names a log level. -/
def logLevelVariable : String := "SSH_RUNNER_LOG_LEVEL"

/-- The time as the log shows it. -/
def currentTime : IO String := do
  let now ← Std.Time.PlainDateTime.now
  return now.format "uuuu-MM-dd HH:mm:ss,SSS"

/-- The code of the error that a directory is read as a file. A path through a file as if that
were a directory fails with another one. -/
def directoryCode : UInt32 := 21

/-- What a path names. -/
def readState (path : String) : IO FileState := do
  try
    return .file (← IO.FS.readBinFile path).toList
  catch e =>
    match e with
    | .noFileOrDirectory .. => return .missing
    | .inappropriateType _ code _ =>
      return if code = directoryCode then .directory else .missing
    | e => throw e

def main (args : List String) : IO UInt32 := do
  let some invocation := Invocation.ofArguments? args
    | do
      IO.eprintln helpText
      return 2
  let state ← match invocation with
    | .run _ _ path _ => readState path
    | .help | .version => pure .missing
  let env ← IO.getEnv logLevelVariable
  let screen := invocation.perform (fun _ => state) env (← currentTime)
  IO.print screen.stdout
  IO.eprint screen.stderr
  if let some fault := screen.uncaught then
    IO.eprintln ((fault.message?).getD "The manifest cannot be processed.")
  return screen.exitCode.toUInt32
