import DmaController.Script.Report

/-! # Running scripts

The commands of a script are carried out in order, and what they print is collected.  The only
command that can fail is the change of a setting; the console then stays as the commands before it
left it, and nothing of what was printed is kept. -/

namespace DmaController

/-- Carries out a command. -/
def Console.carryOut (m : Console) : Command → Except SettingError (Option String × Console)
  | .write a v => .ok (none, m.write a v)
  | .poke a bytes => .ok (none, m.modifyBoard (·.load a bytes))
  | .runLines n => .ok (none, m.runLines n)
  | .runFrame => .ok (none, m.runFrame)
  | .assign name value =>
    (m.rig.controller.settings.assign name value).map fun settings =>
      (none, m.modifyController fun k => { k with settings := settings })
  | .print topic =>
    let (text, m) := m.report topic
    .ok (some text, m)
  | .trace on => .ok (none, m.modifyBoard fun b => { b with tracing := on })

namespace Script

/-- Carries out commands. -/
def runCommands (m : Console) :
    List (Located Command) → Except (Located SettingError) (List String) × Console
  | [] => (.ok [], m)
  | c :: cs =>
    match m.carryOut c.value with
    | .error e => (.error ⟨c.line, e⟩, m)
    | .ok (text, m) =>
      let (result, m) := runCommands m cs
      (result.map (text.toList ++ ·), m)

/-- Runs a script: what it printed or why it failed, and the console it leaves behind. -/
def run (s : Script) (m : Console) : Except (Located SettingError) (List String) × Console :=
  runCommands m s.commands

end Script

end DmaController
