import DmaController.Address

/-! # The two buses

`Buses β` says that states of type `β` can stand behind a controller: reading and writing on the
A-bus, which is memory, and on the B-bus, which is a row of registers.  Every access may change
the state, reads included.

Memory may also be opened for direct access, block by block.  A *block pointer* is good for a
whole block: the byte at `bank:offset` lies `offset` bytes further on.  A *byte pointer* points at
the byte itself.  Where neither is given out, each byte goes through the memory map.

A few registers have entrances of their own, which go round the decoding of B-bus addresses.
Unless the owner of the buses says otherwise, they lead to the ordinary registers. -/

namespace DmaController

/-- States that a controller can reach over its two buses. -/
class Buses (β : Type) where
  /-- Reads a byte on the A-bus. -/
  read : Address → β → UInt8 × β
  /-- Writes a byte on the A-bus. -/
  write : Address → UInt8 → β → β
  /-- Reads a register of the B-bus. -/
  readRegister : UInt16 → β → UInt8 × β
  /-- Writes a register of the B-bus. -/
  writeRegister : UInt16 → UInt8 → β → β
  /-- Asks for direct access to the block of an address. -/
  blockPointer : Address → β → Option Pointer × β
  /-- Asks for direct access to the byte at an address. -/
  bytePointer : Address → β → Option Pointer × β
  /-- Reads directly. -/
  peek : Pointer → β → UInt8 × β
  /-- Reads two bytes on the A-bus, the low one first, going round at the end of all banks. -/
  readWord : Address → β → UInt16 × β := fun a b =>
    let low := read (a % 0x1000000) b
    let high := read ((a + 1) % 0x1000000) low.2
    (high.1.toUInt16 * 0x100 + low.1.toUInt16, high.2)
  /-- Whether video memory addresses are being rearranged. -/
  remapsVideo : β → Bool := fun _ => false
  /-- Writes sprite data, `$2104`. -/
  writeSprite : UInt8 → β → β := writeRegister 0x2104
  /-- Writes the low or high byte of video data, `$2118` or `$2119`. -/
  writeVideo : (high remapped : Bool) → UInt8 → β → β := fun high _ =>
    writeRegister (if high then 0x2119 else 0x2118)
  /-- Writes colour data, `$2122`. -/
  writeColour : UInt8 → β → β := writeRegister 0x2122
  /-- Writes through the work RAM port, `$2180`. -/
  writeWorkRam : UInt8 → β → β := writeRegister 0x2180
  /-- Leaves a byte floating on the bus. -/
  setOpenBus : UInt8 → β → β := fun _ b => b
  /-- Says whether the A-bus is using work RAM, which then cannot answer on its port. -/
  setWorkRamTaken : Bool → β → β := fun _ b => b
  /-- Sets the sprite table address. -/
  setSpriteAddress : UInt16 → β → β := fun _ b => b

end DmaController
