import DmaController.Buses
import DmaController.Console.MemoryMap
import DmaController.Memory

/-! # The board of a console

The board holds all memory and the registers of the B-bus.  Registers keep what is written to
them and do nothing, but for the *work RAM port*: reading or writing `$2180` reaches the byte of
work RAM at the work address, which then moves on, round its 128 KiB; `$2181` to `$2183` set that
address.  While the A-bus uses work RAM, the port does not answer and the work address stays.

The last byte seen on a bus stays there (`openBus`) and is read where nothing answers.  Writes to
the B-bus can be traced. -/

namespace DmaController

/-- The number of bytes of work RAM. -/
def workRamSize : Nat := 0x20000

/-- The memory and the registers of a console. -/
structure Board where
  memory : Memory
  registers : Memory
  /-- Where the work RAM port points to. -/
  workAddress : Nat
  openBus : UInt8
  /-- Whether the A-bus is using work RAM. -/
  workRamTaken : Bool
  spriteAddress : UInt16
  tracing : Bool
  /-- The traced writes, the last one first. -/
  trace : List (UInt16 × UInt8)

namespace Board

/-- A board after power-on. -/
def powerOn : Board where
  memory := .zero
  registers := .zero
  workAddress := 0
  openBus := 0
  workRamTaken := false
  spriteAddress := 0
  tracing := false
  trace := []

instance : Inhabited Board := ⟨powerOn⟩

/-- Stores bytes straight into memory, read-only memory included. -/
def load (b : Board) (a : Address) (bytes : List UInt8) : Board :=
  { b with memory := b.memory.load a.toNat bytes }

/-- The contents of a register of the B-bus. -/
def register (b : Board) (a : UInt16) : UInt8 := b.registers.get (a.toNat % 0x100)

/-- The byte at an address, looked at without any effect. -/
def look (b : Board) (a : Address) : UInt8 :=
  match Region.of a with
  | .workRam c => b.memory.get c
  | .rom c => b.memory.get c
  | .registers r => b.register r
  | .nothing => b.openBus

/-- The memory cell that the work RAM port points to. -/
def portCell (b : Board) : Nat := Region.workRamStart + b.workAddress

/-- Moves the work address on by one, round the end of work RAM. -/
def advancePort (b : Board) : Board := { b with workAddress := (b.workAddress + 1) % workRamSize }

/-- Reads a register of the B-bus. -/
def readRegister (a : UInt16) (b : Board) : UInt8 × Board :=
  if a = 0x2180 then
    if b.workRamTaken then (b.openBus, b)
    else
      let v := b.memory.get b.portCell
      (v, { b.advancePort with openBus := v })
  else if 0x2181 ≤ a ∧ a ≤ 0x21FF then (b.openBus, b)
  else
    let v := b.register a
    (v, { b with openBus := v })

/-- The effect of a write to the B-bus on the work RAM port. -/
def writePort (a : UInt16) (v : UInt8) (b : Board) : Board :=
  let w := b.workAddress
  if a = 0x2180 then
    if b.workRamTaken then b
    else { b.advancePort with memory := b.memory.set b.portCell v }
  else if a = 0x2181 then
    { b with workAddress := w / 0x100 * 0x100 + v.toNat }
  else if a = 0x2182 then
    { b with workAddress := w / 0x10000 * 0x10000 + v.toNat * 0x100 + w % 0x100 }
  else if a = 0x2183 then
    { b with workAddress := v.toNat % 2 * 0x10000 + w % 0x10000 }
  else b

/-- Writes a register of the B-bus. -/
def writeRegister (a : UInt16) (v : UInt8) (b : Board) : Board :=
  let b := if b.tracing then { b with trace := (a, v) :: b.trace } else b
  let b := b.writePort a v
  { b with registers := b.registers.set (a.toNat % 0x100) v, openBus := v }

/-- Reads a byte on the A-bus. -/
def read (a : Address) (b : Board) : UInt8 × Board :=
  match Region.of a with
  | .workRam c => (b.memory.get c, { b with openBus := b.memory.get c })
  | .rom c => (b.memory.get c, { b with openBus := b.memory.get c })
  | .registers r => b.readRegister r
  | .nothing => (b.openBus, b)

/-- Writes a byte on the A-bus; read-only memory keeps what it holds. -/
def write (a : Address) (v : UInt8) (b : Board) : Board :=
  match Region.of a with
  | .workRam c => { b with memory := b.memory.set c v, openBus := v }
  | .registers r => b.writeRegister r v
  | .rom _ => { b with openBus := v }
  | .nothing => { b with openBus := v }

/-- Direct access to the block of an address, where it is memory. -/
def blockPointer (a : Address) (b : Board) : Option Pointer × Board :=
  ((Region.of a).cell?.map fun c => ⟨UInt64.ofNat (c - (Address.offset a).toNat)⟩, b)

/-- Direct access to the byte at an address, where it is memory. -/
def bytePointer (a : Address) (b : Board) : Option Pointer × Board :=
  ((Region.of a).cell?.map fun c => ⟨UInt64.ofNat c⟩, b)

/-- Reads memory directly. -/
def peek (p : Pointer) (b : Board) : UInt8 × Board :=
  (b.memory.get (p.index.toNat % 0x1000000), b)

/-- Whether the video register that governs it asks for video addresses to be rearranged. -/
def remapsVideo (b : Board) : Bool := b.register 0x2115 &&& 0x0C != 0

/-- The writes traced so far, in order; the trace is empty from here on. -/
def takeTrace (b : Board) : List (UInt16 × UInt8) × Board :=
  (b.trace.reverse, { b with trace := [] })

instance : Buses Board where
  read := read
  write := write
  readRegister := readRegister
  writeRegister := writeRegister
  blockPointer := blockPointer
  bytePointer := bytePointer
  peek := peek
  remapsVideo := remapsVideo
  setOpenBus v b := { b with openBus := v }
  setWorkRamTaken taken b := { b with workRamTaken := taken }
  setSpriteAddress a b := { b with spriteAddress := a }

end Board

end DmaController
