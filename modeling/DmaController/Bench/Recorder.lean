import DmaController.Activity
import DmaController.Buses
import DmaController.Memory

/-! # A recording bus

Buses for looking at what a controller does.  They hold 16 MiB of memory and 256 registers, and
keep a log of every access.  Memory in the *slow* ranges is not opened for direct access; writes
reach the memory below bank `$C0`; registers may be set to count up when they are read.

There are two of them.  The *plain* one leaves the entrances of single registers as they are by
default; the *dedicated* one logs them as accesses of their own, without any effect. -/

namespace DmaController

/-- What an event can ask for. -/
inductive Action where
  | runLine (channels : ChannelMask)
  | runActive
  | beginFrame
  | writeController (address : UInt16) (value : UInt8)
  | writeBus (address : UInt16) (value : UInt8)
  | runChannel (channel : ChannelId)
  | pause
deriving DecidableEq, Repr

/-- What an action answers. -/
inductive Answer where
  | nothing
  | channels (m : ChannelMask)
  | done (completed : Bool)
deriving DecidableEq, Repr

/-- An entry of the log. -/
inductive LogEntry where
  | read (a : Address) (v : UInt8)
  | write (a : Address) (v : UInt8)
  | readRegister (a : UInt16) (v : UInt8)
  | writeRegister (a : UInt16) (v : UInt8)
  | blockPointer (a : Address)
  | bytePointer (a : Address)
  | peek (p : Pointer) (v : UInt8)
  | writeSprite (v : UInt8)
  | writeVideo (high remapped : Bool) (v : UInt8)
  | writeColour (v : UInt8)
  | writeWorkRam (v : UInt8)
  | setOpenBus (v : UInt8)
  | setWorkRamTaken (taken : Bool)
  | setSpriteAddress (a : UInt16)
  | eventBegins (action : Action) (cycles : Int) (activity : Activity)
  | eventEnds (answer : Answer) (activity : Activity)
deriving Repr

/-- Buses that keep a log. -/
structure Recorder where
  memory : Memory
  registers : Memory
  /-- Whether a register counts up when it is read. -/
  counting : Bool
  /-- Ranges of addresses, both ends included, that are not opened for direct access. -/
  slow : List (Address × Address)
  /-- The accesses so far, the last one first. -/
  log : List LogEntry

namespace Recorder

/-- A recorder with nothing on it. -/
def blank (counting : Bool) : Recorder := ⟨.zero, .zero, counting, [], []⟩

/-- Adds an entry to the log. -/
def note (e : LogEntry) (b : Recorder) : Recorder := { b with log := e :: b.log }

/-- Whether an address lies in a slow range. -/
def isSlow (b : Recorder) (a : Address) : Bool :=
  b.slow.any fun range => decide (range.1 ≤ a) && decide (a ≤ range.2)

/-- Reads memory. -/
def read (a : Address) (b : Recorder) : UInt8 × Recorder :=
  let v := b.memory.get a.cell
  (v, b.note (.read a v))

/-- Writes memory below bank `$C0`. -/
def write (a : Address) (v : UInt8) (b : Recorder) : Recorder :=
  let b := b.note (.write a v)
  if a < 0xC00000 then { b with memory := b.memory.set a.cell v } else b

/-- Reads a register, which then may count up. -/
def readRegister (a : UInt16) (b : Recorder) : UInt8 × Recorder :=
  let i := a.toNat % 0x100
  let v := b.registers.get i
  let b := b.note (.readRegister a v)
  (v, if b.counting then { b with registers := b.registers.set i (v + 1) } else b)

/-- Writes a register. -/
def writeRegister (a : UInt16) (v : UInt8) (b : Recorder) : Recorder :=
  let b := b.note (.writeRegister a v)
  { b with registers := b.registers.set (a.toNat % 0x100) v }

/-- Opens a block unless the address is slow. -/
def blockPointer (a : Address) (b : Recorder) : Option Pointer × Recorder :=
  (if b.isSlow a then none else some ⟨UInt64.ofNat (a.cell / 0x10000 * 0x10000)⟩,
    b.note (.blockPointer a))

/-- Opens a byte unless the address is slow. -/
def bytePointer (a : Address) (b : Recorder) : Option Pointer × Recorder :=
  (if b.isSlow a then none else some ⟨UInt64.ofNat a.cell⟩, b.note (.bytePointer a))

/-- Reads memory directly. -/
def peek (p : Pointer) (b : Recorder) : UInt8 × Recorder :=
  let v := b.memory.get (p.index.toNat % 0x1000000)
  (v, b.note (.peek p v))

/-- The recorder that leaves the entrances of single registers as they are by default. -/
@[reducible] def plain : Buses Recorder where
  read := read
  write := write
  readRegister := readRegister
  writeRegister := writeRegister
  blockPointer := blockPointer
  bytePointer := bytePointer
  peek := peek

/-- The recorder that logs the entrances of single registers as accesses of their own. -/
@[reducible] def dedicated : Buses Recorder :=
  { plain with
    remapsVideo := fun b => b.registers.get 0x15 &&& 0x0C != 0
    writeSprite := fun v => note (.writeSprite v)
    writeVideo := fun high remapped v => note (.writeVideo high remapped v)
    writeColour := fun v => note (.writeColour v)
    writeWorkRam := fun v => note (.writeWorkRam v)
    setOpenBus := fun v => note (.setOpenBus v)
    setWorkRamTaken := fun taken => note (.setWorkRamTaken taken)
    setSpriteAddress := fun a => note (.setSpriteAddress a) }

end Recorder

end DmaController
