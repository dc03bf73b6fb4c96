import DmaController.Console.Beam
import DmaController.Console.Board
import DmaController.Transfer.Run

/-! # A console without a processor

A controller on the board of a console, with the beam as its schedule.  The processor's part is
played from outside: `Console.write` and `Console.read` are its accesses, and between them the
console can idle for a number of lines (`runLines`) or to the start of the next frame
(`runFrame`). -/

namespace DmaController

/-- A controller, the board it works on, and the beam. -/
abbrev Console := Host Beam Board

namespace Console

/-- A console after power-on. -/
def powerOn (settings : Settings) : Console where
  rig := ⟨.powerOn settings, .powerOn, 0⟩
  schedule := .powerOn

instance : Inhabited Console := ⟨powerOn .standard⟩

/-- The board of the console. -/
def board (m : Console) : Board := m.rig.buses

/-- Changes the board alone. -/
def modifyBoard (m : Console) (f : Board → Board) : Console := m.modifyRig (·.modifyBuses f)

/-- Whether the controller takes writes to an address. -/
def isControllerAddress (a : Address) : Bool :=
  let offset := Address.offset a
  isSystemBank (Address.bank a) &&
    (offset == 0x420B || offset == 0x420C || Controller.isChannelRegister offset
      || offset == 0x4801)

/-- The processor writes a byte. -/
def write (m : Console) (a : Address) (v : UInt8) : Console :=
  if isControllerAddress a then m.writeRegister (Address.offset a) v
  else m.modifyRig (·.write a v)

/-- The processor reads a byte.  The registers of channels answer, as far as they do; the rest is
looked up without effect on the work RAM port. -/
def read (m : Console) (a : Address) : UInt8 :=
  let offset := Address.offset a
  if isSystemBank (Address.bank a) && Controller.isChannelRegister offset then
    (m.rig.controller.readRegister offset).getD m.board.openBus
  else m.board.look a

/-- Puts the channels into their power-on state. -/
def resetChannels (m : Console) : Console := m.modifyController (·.resetChannels)

/-- Idles to the next event and carries it out. -/
def stepEvent (m : Console) : Console :=
  let gap := m.schedule.position - m.rig.cycles
  Beam.fire (if 0 < gap then m.spend gap else m)

/-- Steps from event to event until `stop` holds, for at most `limit` events. -/
def idleUntil (stop : Console → Bool) (limit : Nat) (m : Console) : Console :=
  match limit with
  | 0 => m
  | limit + 1 => if stop m then m else idleUntil stop limit m.stepEvent

/-- The most events that a line can have. -/
def eventsPerLine : Nat := 3

/-- Idles until `n` more lines have ended. -/
def runLines (m : Console) (n : Nat) : Console :=
  let target := m.schedule.linesRun + n
  m.idleUntil (fun m => decide (target ≤ m.schedule.linesRun)) (eventsPerLine * n)

/-- Idles until the next frame has begun. -/
def runFrame (m : Console) : Console :=
  let frame := m.schedule.frame
  m.idleUntil (fun m => decide (m.schedule.frame ≠ frame)) (eventsPerLine * Beam.linesPerFrame)

end Console

end DmaController
