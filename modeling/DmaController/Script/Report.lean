import DmaController.Console.Basic
import DmaController.Script.Command
import DmaController.Text.Hex

/-! # Reports

What a script prints about a console, one line of text for each topic. -/

namespace DmaController

namespace Report

/-- A byte after `0x`. -/
def byte (v : UInt8) : String := "0x" ++ Hex.byte v

/-- A word after `0x`. -/
def word (v : UInt16) : String := "0x" ++ Hex.word v

/-- The registers of a channel. -/
def channel (i : ChannelId) (c : Channel) : String :=
  "ch" ++ toString i.val ++ ": params=" ++ byte c.control.toByte ++ " b=$21" ++ Hex.byte c.port
    ++ " a=$" ++ Hex.byte c.bank ++ ":" ++ Hex.word c.address ++ " count=" ++ word c.count
    ++ " ibank=$" ++ Hex.byte c.indirectBank ++ " table=" ++ word c.table
    ++ " lines=" ++ toString c.lines.toNat ++ " repeat=" ++ toString c.repeats
    ++ " do_transfer=" ++ toString c.pending

/-- A byte of memory. -/
def memory (a : Address) (v : UInt8) : String :=
  "0x" ++ Hex.text 6 a.toNat ++ ": " ++ byte v

/-- The three sets of channels that govern line transfers. -/
def lineTransfers (k : Controller) : String :=
  "hdma: enable=" ++ byte k.enabled.bits ++ " active=" ++ byte k.active.bits
    ++ " ended=" ++ byte k.ended.bits

/-- The sprite table address. -/
def spriteAddress (a : UInt16) : String := "oam: address=" ++ word a

/-- The record of activity. -/
def activity (a : Activity) : String :=
  let current :=
    match a.current with
    | some i => "Some(" ++ toString i.toNat ++ ")"
    | none => "None"
  "TransferFlags \x7b in_dma: " ++ toString a.inTransfer ++ ", in_hdma: " ++ toString a.inLine
    ++ ", in_dma_or_hdma: " ++ toString a.busy
    ++ ", in_wram_dma_or_hdma: " ++ toString a.workRamTaken
    ++ ", current_channel: " ++ current
    ++ ", hdma_ran_in_dma: " ++ toString a.ranInside.bits.toNat ++ " \x7d"

/-- The place of the beam. -/
def beam (b : Beam) (cycles : Int) : String :=
  "frame=" ++ toString b.frame ++ " line=" ++ toString b.line ++ " cycles=" ++ toString cycles

/-- A traced write. -/
def tracedWrite (w : UInt16 × UInt8) : String := Hex.word w.1 ++ "=" ++ Hex.byte w.2

/-- Traced writes. -/
def trace (ws : List (UInt16 × UInt8)) : String :=
  "trace: [" ++ ", ".intercalate (ws.map tracedWrite) ++ "]"

end Report

/-- Prints about a topic.  The traced writes are used up by being printed. -/
def Console.report (m : Console) : Topic → String × Console
  | .channel i => (Report.channel i (m.rig.channel i), m)
  | .memory a => (Report.memory a (m.board.look a), m)
  | .lineTransfers => (Report.lineTransfers m.rig.controller, m)
  | .spriteAddress => (Report.spriteAddress m.board.spriteAddress, m)
  | .activity => (Report.activity m.rig.controller.activity, m)
  | .beam => (Report.beam m.schedule m.rig.cycles, m)
  | .trace =>
    let (ws, board) := m.board.takeTrace
    (Report.trace ws, m.modifyBoard fun _ => board)

end DmaController
