import TapeMachine.CommandLine

/-!
# The command

The command reads the file that its arguments name, looks up the budget of steps and the level of
the log in the environment, and does what `CommandLine.Request.perform` says. The log shows
warnings unless the environment asks for another level.
-/

namespace TapeMachine.CommandLine

/-- Read the whole file at this path. -/
def readContents (path : String) : IO FileContents := do
  try
    return textOfBytes (← IO.FS.readBinFile path)
  catch
    | .noFileOrDirectory .. => return .error .missing
    | .inappropriateType .. => return .error .directory
    | e => return .error (.described (toString e))

/-- Read the file of the specification, if one is needed. -/
def Request.contents : Request → IO FileContents
  | .run options => if options.builtin then return .ok "" else readContents options.specification
  | _ => return .ok ""

end TapeMachine.CommandLine

open TapeMachine CommandLine in
/-- Run the command and return its exit code. -/
def main (arguments : List String) : IO UInt32 := do
  let environment ← IO.getEnv "TMSIM_MAX_STEPS"
  let level := match ← IO.getEnv "TMSIM_LOG" with
    | none => some Log.Level.warn
    | some name => Log.Level.ofName? name
  let request := Request.ofArguments environment arguments
  let transcript := request.perform environment level (← request.contents)
  (← IO.getStdout).putStr transcript.output
  (← IO.getStderr).putStr transcript.errors
  return transcript.exitCode.toUInt32
