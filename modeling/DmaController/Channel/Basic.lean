import DmaController.Address
import DmaController.Channel.Control

/-! # Channels

A channel holds the settings of one transfer and, while it runs, its progress.  The same
registers serve two kinds of work.

* A *general* transfer moves `count` bytes between the A-bus, from `bank:address` on, and the
  B-bus registers that start at `port`.
* A *line* transfer sends one unit in the pause after each scanline, as told by a table at
  `bank:table`.  A direct table holds the data itself; an indirect one holds the addresses,
  below `indirectBank`, of data elsewhere, and `count` is then where the next byte lies.

The fields below the registers belong to line transfers: `pending` says that the next pause has
a unit to send, and `cache` may hold direct access to its bytes. -/

namespace DmaController

/-- The registers of a channel, and what it remembers from line to line. -/
structure Channel where
  /-- `$43x0`: how bytes are moved. -/
  control : Control
  /-- `$43x1`: the first B-bus register, counted from `$2100`. -/
  port : UInt8
  /-- `$43x2`, `$43x3`: the A-bus offset. -/
  address : UInt16
  /-- `$43x4`: the A-bus bank. -/
  bank : UInt8
  /-- `$43x5`, `$43x6`: bytes left to move, or the offset of indirect data. -/
  count : UInt16
  /-- `$43x7`: the bank of indirect data. -/
  indirectBank : UInt8
  /-- `$43x8`, `$43x9`: the offset of the next table byte. -/
  table : UInt16
  /-- `$43xA`, bit 7: a unit is sent on each line of the entry and not on its first alone. -/
  repeats : Bool
  /-- `$43xA`, low bits: lines left in the entry; 128 is possible here. -/
  lines : UInt8
  /-- `$43xB`, `$43xF`: a byte without a purpose. -/
  scratch : UInt8
  /-- Whether the next pause has a unit to send. -/
  pending : Bool
  /-- Direct access to the bytes of the next unit. -/
  cache : Option Pointer
deriving DecidableEq, Repr

namespace Channel

/-- A channel after power-on. -/
def powerOn : Channel where
  control := .ofByte 0xFF
  port := 0xFF
  address := 0xFFFF
  bank := 0xFF
  count := 0xFFFF
  indirectBank := 0xFF
  table := 0xFFFF
  repeats := false
  lines := 0x7F
  scratch := 0xFF
  pending := false
  cache := none

instance : Inhabited Channel := ⟨powerOn⟩

/-- The unit mode of the channel. -/
def mode (c : Channel) : UnitMode := c.control.mode

/-- The B-bus address of the register at `offset` from the channel's first. -/
def register (c : Channel) (offset : UInt8) : UInt16 :=
  0x2100 + c.port.toUInt16 + offset.toUInt16

/-- The number of bytes of a general transfer: a count of zero stands for 2^16. -/
def length (c : Channel) : Nat := if c.count = 0 then 0x10000 else c.count.toNat

/-- The bank of the data of a line transfer. -/
def lineBank (c : Channel) : UInt8 := if c.control.indirect then c.indirectBank else c.bank

/-- The offset of the next unit of a line transfer. -/
def lineOffset (c : Channel) : UInt16 := if c.control.indirect then c.count else c.table

/-- Whether the next unit of a line transfer reaches the end of the block it starts in. -/
def unitReachesBlockEnd (c : Channel) : Bool :=
  decide (blockSize ≤ positionInBlock c.lineOffset + c.mode.size)

/-- Whether a general transfer would read work RAM while it is written through its own port,
which the memory cannot do. -/
def feedsWorkRamItself (c : Channel) : Bool :=
  isWorkRamBank c.bank && c.port == 0x80 && !c.control.reverse

/-- Whether units may reach the work RAM port from a bank that shows work RAM in part. -/
def mayMeetWorkRamPort (c : Channel) : Bool :=
  decide (0x7C < c.port) && decide (c.port ≤ 0x83) && isSystemBank c.bank

/-- One byte of a general transfer is done: one less to go, and the address steps on. -/
def countDown (c : Channel) (step : AddressStep) : Channel :=
  { c with count := c.count - 1, address := c.address + step.word }

/-- The unit of a line transfer lies behind: its data continues further on. -/
def passUnit (c : Channel) : Channel :=
  let n := UInt16.ofNat c.mode.size
  if c.control.indirect then { c with count := c.count + n } else { c with table := c.table + n }

theorem length_pos (c : Channel) : 0 < c.length := by
  simp only [length]
  split
  · decide
  · rename_i h
    exact Nat.pos_of_ne_zero fun h0 => h (UInt16.toNat_inj.mp h0)

theorem length_le (c : Channel) : c.length ≤ 0x10000 := by
  have := c.count.toNat_lt
  simp only [length]
  split <;> omega

end Channel

end DmaController
