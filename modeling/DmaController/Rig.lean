import DmaController.Buses
import DmaController.Controller

/-! # A controller on its buses

A rig is a controller together with the buses it drives and a count of master cycles.  The
operations here carry single accesses over to the rig, and change the record of activity and the
state of the buses together where they must agree: `setWorkRamTaken` is the only operation that
changes either side's idea of whether work RAM is in use. -/

namespace DmaController

/-- A controller, its buses, and the master cycles counted so far. -/
structure Rig (β : Type) where
  controller : Controller
  buses : β
  cycles : Int

namespace Rig

variable {β : Type}

/-- Channel `i` of the controller. -/
def channel (r : Rig β) (i : ChannelId) : Channel := r.controller.channel i

/-- The rig with channel `i` replaced. -/
def setChannel (r : Rig β) (i : ChannelId) (c : Channel) : Rig β :=
  { r with controller := r.controller.setChannel i c }

/-- The rig with channel `i` changed by `f`. -/
def modifyChannel (r : Rig β) (i : ChannelId) (f : Channel → Channel) : Rig β :=
  r.setChannel i (f (r.channel i))

/-- The rig with its record of activity changed by `f`. -/
def modifyActivity (r : Rig β) (f : Activity → Activity) : Rig β :=
  { r with controller := { r.controller with activity := f r.controller.activity } }

/-- Counts `n` more cycles. -/
def spend (r : Rig β) (n : Int) : Rig β := { r with cycles := r.cycles + n }

variable [Buses β]

/-- Reads a byte on the A-bus. -/
def read (r : Rig β) (a : Address) : UInt8 × Rig β :=
  let got := Buses.read a r.buses
  (got.1, { r with buses := got.2 })

/-- Reads two bytes on the A-bus. -/
def readWord (r : Rig β) (a : Address) : UInt16 × Rig β :=
  let got := Buses.readWord a r.buses
  (got.1, { r with buses := got.2 })

/-- Writes a byte on the A-bus. -/
def write (r : Rig β) (a : Address) (v : UInt8) : Rig β :=
  { r with buses := Buses.write a v r.buses }

/-- Reads a register of the B-bus. -/
def readRegister (r : Rig β) (a : UInt16) : UInt8 × Rig β :=
  let got := Buses.readRegister a r.buses
  (got.1, { r with buses := got.2 })

/-- Writes a register of the B-bus. -/
def writeRegister (r : Rig β) (a : UInt16) (v : UInt8) : Rig β :=
  { r with buses := Buses.writeRegister a v r.buses }

/-- Asks for direct access to a block. -/
def blockPointer (r : Rig β) (a : Address) : Option Pointer × Rig β :=
  let got := Buses.blockPointer a r.buses
  (got.1, { r with buses := got.2 })

/-- Asks for direct access to a byte. -/
def bytePointer (r : Rig β) (a : Address) : Option Pointer × Rig β :=
  let got := Buses.bytePointer a r.buses
  (got.1, { r with buses := got.2 })

/-- Reads directly. -/
def peek (r : Rig β) (p : Pointer) : UInt8 × Rig β :=
  let got := Buses.peek p r.buses
  (got.1, { r with buses := got.2 })

/-- Changes the buses alone. -/
def modifyBuses (r : Rig β) (f : β → β) : Rig β := { r with buses := f r.buses }

/-- Says, to the record of activity and to the buses, whether work RAM is in use on the A-bus. -/
def setWorkRamTaken (r : Rig β) (taken : Bool) : Rig β :=
  (r.modifyActivity fun a => { a with workRamTaken := taken }).modifyBuses
    (Buses.setWorkRamTaken taken)

end Rig

end DmaController
