import DmaController.CommandLine

/-! # The program

Reads the script file that the first argument names and runs it. -/

namespace DmaController.CommandLine

/-- The wording of a failure to read a file: what the system says, and its number for it. -/
def describeFailure : IO.Error → String
  | .noFileOrDirectory .. => noSuchFile
  | .permissionDenied _ code details | .inappropriateType _ code details
  | .invalidArgument _ code details | .resourceExhausted _ code details
  | .otherError code details => details ++ " (os error " ++ toString code ++ ")"
  | e => toString e

/-- Reads the script file that the first argument names. -/
def readScriptFile : List String → IO ScriptFile
  | [] => return .noArgument
  | path :: _ =>
    try
      return .contents (← IO.FS.readBinFile path)
    catch e =>
      return .unreadable (describeFailure e)

end DmaController.CommandLine

open DmaController

/-- Runs a script. -/
def main (args : List String) : IO UInt32 := do
  let outcome := CommandLine.run (← CommandLine.readScriptFile args)
  (← IO.getStdout).putStr outcome.output
  (← IO.getStderr).putStr outcome.errors
  return outcome.code
