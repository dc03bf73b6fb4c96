import DmaController.Rig

/-! # Sending a unit

In the pause after a scanline, a channel with a unit pending moves that unit, one byte after the
other.  The way the bytes take depends on where they lie:

* in reverse, from the registers to the A-bus (`collectUnit`);
* over the end of a block, byte by byte through the memory map (`sendStraddling`);
* inside a block, through the memory map (`sendMapped`) or, where direct access was given,
  through a pointer that then moves on past the unit (`sendDirect`).

Before each access, the rig says whether it uses work RAM. -/

namespace DmaController

namespace Rig

variable {β : Type} [Buses β]

/-- Does `step` for each byte of a unit, in order, with its number and its register offset. -/
def forUnit (mode : UnitMode) (step : Nat → UInt8 → Rig β → Rig β) (r : Rig β) : Rig β :=
  mode.offsets.zipIdx.foldl (fun r p => step p.2 p.1 r) r

/-- Moves a unit from the registers to the A-bus. -/
def collectUnit (c : Channel) (r : Rig β) : Rig β :=
  r.forUnit c.mode fun k offset r =>
    let a := c.lineOffset + UInt16.ofNat k
    let r := r.setWorkRamTaken (isWorkRam c.lineBank a)
    let (v, r) := r.readRegister (c.register offset)
    (r.write (.of c.lineBank a) v).spend slowAccess

/-- Moves a unit to the registers, looking at the memory map anew for each byte. -/
def sendStraddling (c : Channel) (r : Rig β) : Rig β :=
  r.forUnit c.mode fun k offset r =>
    let a := c.lineOffset + UInt16.ofNat k
    let r := r.setWorkRamTaken (isWorkRam c.lineBank a)
    let (v, r) := r.read (.of c.lineBank a)
    (r.writeRegister (c.register offset) v).spend slowAccess

/-- Moves a unit that lies inside a block to the registers, through the memory map. -/
def sendMapped (c : Channel) (r : Rig β) : Rig β :=
  r.forUnit c.mode fun k offset r =>
    let (v, r) := r.read (Address.of c.lineBank c.lineOffset + UInt32.ofNat k)
    (r.writeRegister (c.register offset) v).spend slowAccess

/-- Moves a unit that lies inside a block to the registers, through a pointer.  The last byte of
an alternating unit is left floating on the bus before it is written. -/
def sendDirect (c : Channel) (p : Pointer) (r : Rig β) : Rig β :=
  r.forUnit c.mode fun k offset r =>
    let (v, r) := r.peek (p.offset (UInt64.ofNat k))
    let r :=
      if k + 1 = c.mode.size ∧ c.mode.isAlternating then r.modifyBuses (Buses.setOpenBus v) else r
    (r.writeRegister (c.register offset) v).spend slowAccess

/-- Asks for direct access to the next unit of channel `i`, if there is none yet. -/
def refreshCache (r : Rig β) (i : ChannelId) : Rig β :=
  let c := r.channel i
  match c.cache with
  | some _ => r
  | none =>
    let (p, r) := r.bytePointer (.of c.lineBank c.lineOffset)
    r.setChannel i { c with cache := p }

/-- Replaces the direct access that channel `i` remembers. -/
def setCache (r : Rig β) (i : ChannelId) (p : Option Pointer) : Rig β :=
  r.modifyChannel i fun c => { c with cache := p }

/-- Sends the unit of channel `i`, if one is pending.  A unit for the sprite table first sets the
address of that table to its end, where the settings ask for it. -/
def sendUnit (r : Rig β) (i : ChannelId) : Rig β :=
  let r := r.refreshCache i
  let c := r.channel i
  if !c.pending then r else
    let r :=
      if c.port = 0x04 ∧ r.controller.settings.resetsSpriteAddress then
        r.modifyBuses (Buses.setSpriteAddress 0x10C)
      else r
    if c.control.reverse then (r.setCache i none).collectUnit c
    else if c.unitReachesBlockEnd then (r.setCache i none).sendStraddling c
    else
      let r := r.setWorkRamTaken (isWorkRam c.lineBank c.lineOffset)
      match c.cache with
      | none => r.sendMapped c
      | some p => (r.sendDirect c p).setCache i (some (p.offset (UInt64.ofNat c.mode.size)))

end Rig

end DmaController
