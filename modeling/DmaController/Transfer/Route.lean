import DmaController.Rig

/-! # Routes to the registers

Bytes that a general transfer has fetched directly go to their registers by a route chosen once
for each stretch of memory.  Where the unit mode and the first register say that all bytes go to
one of the registers with an entrance of its own, or alternately to the two registers of video
data, the route leads through that entrance; otherwise it is the ordinary one. -/

namespace DmaController

/-- A way to the registers. -/
inductive Route where
  | ordinary
  | sprite
  | video (high remapped : Bool)
  | videoPair (remapped : Bool)
  | colour
  | workRam
deriving DecidableEq, Repr

namespace Route

/-- The route for a unit mode and a first register, counted from `$2100`. -/
def choose (mode : UnitMode) (port : UInt8) (remapped : Bool) : Route :=
  if mode.isSingle then
    if port = 0x04 then sprite
    else if port = 0x18 then video false remapped
    else if port = 0x19 then video true remapped
    else if port = 0x22 then colour
    else if port = 0x80 then workRam
    else ordinary
  else if mode.isAlternating ∧ port = 0x18 then videoPair remapped
  else ordinary

variable {β : Type} [Buses β]

/-- Delivers a byte that is meant for `register`, at `offset` from the channel's first.  The work
RAM port takes nothing while work RAM is in use (`taken`).  A high byte of a pair, unless video
addresses are rearranged, is left floating on the bus before it is written. -/
def deliver (route : Route) (register : UInt16) (offset : UInt8) (v : UInt8) (taken : Bool)
    (r : Rig β) : Rig β :=
  match route with
  | ordinary => r.writeRegister register v
  | sprite => r.modifyBuses (Buses.writeSprite v)
  | video high remapped => r.modifyBuses (Buses.writeVideo high remapped v)
  | videoPair remapped =>
    let high := offset == 1
    let r := if high && !remapped then r.modifyBuses (Buses.setOpenBus v) else r
    r.modifyBuses (Buses.writeVideo high remapped v)
  | colour => r.modifyBuses (Buses.writeColour v)
  | workRam => if taken then r else r.modifyBuses (Buses.writeWorkRam v)

end Route

end DmaController
