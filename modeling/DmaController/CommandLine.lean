import DmaController.Script.Reader
import DmaController.Script.Run
import DmaController.Text.Quoted

/-! # The command line

`dma-script <script>` runs a script on a console that has just been powered on.  It prints what
the script prints, but only if the whole script succeeds; otherwise it prints why not, in
quotation marks, to the error output. -/

namespace DmaController

namespace CommandLine

/-- The file that the first argument names. -/
inductive ScriptFile where
  | noArgument
  | unreadable (reason : String)
  | contents (bytes : ByteArray)

/-- Why a script was not run to its end. -/
inductive Failure where
  | usage
  | unreadable (reason : String)
  | notText
  | reading (e : Located CommandError)
  | running (e : Located SettingError)
deriving DecidableEq, Repr

/-- The wording of a failure. -/
def Failure.message : Failure → String
  | usage => "usage: dma-script <script>"
  | unreadable reason => reason
  | notText => "stream did not contain valid UTF-8"
  | reading e => e.message CommandError.message
  | running e => e.message SettingError.message

/-- The wording for a file that is not there. -/
def noSuchFile : String := "No such file or directory (os error 2)"

/-- What a program leaves behind: its exit code and its two outputs. -/
structure Outcome where
  code : UInt32
  output : String
  errors : String
deriving DecidableEq, Repr

/-- Runs a script on a fresh console. -/
def runSource (source : String) : Except Failure (List String) :=
  match Script.read source with
  | .error e => .error (.reading e)
  | .ok script => ((script.run default).1).mapError .running

/-- Runs a script file. -/
def runFile : ScriptFile → Except Failure (List String)
  | .noArgument => .error .usage
  | .unreadable reason => .error (.unreadable reason)
  | .contents bytes =>
    match String.fromUTF8? bytes with
    | none => .error .notText
    | some source => runSource source

/-- Runs a script file as a program does. -/
def run (file : ScriptFile) : Outcome :=
  match runFile file with
  | .ok lines => ⟨0, String.join (lines.map (· ++ "\n")), ""⟩
  | .error e => ⟨1, "", "Error: " ++ Quoted.encode e.message ++ "\n"⟩

end CommandLine

end DmaController
