import DmaController.Transfer.Route

/-! # The bytes of a general transfer

A general transfer moves one byte at a time.  What it carries from byte to byte (`Progress`)
depends on its kind:

* an *idle* transfer moves nothing and only counts down;
* a *collecting* one reads a register and writes the A-bus, at the address in the channel;
* a *sending* one works through its source in stretches.  A stretch is opened at the channel's
  address and lasts to the end of its block, in the direction the address moves; when it is used
  up and there are bytes left, the next one is opened.  Within a stretch the source, the route to
  the registers and the use of work RAM are settled.  The position in the source and the place in
  the unit run on across stretches.

The registers of the channel are looked at once, when the transfer starts (`Transfer.channel`);
only the running address is read from the channel itself, where an event may have changed it. -/

namespace DmaController

/-- A general transfer: its channel, the registers of that channel at the start, and the step of
the A-bus address. -/
structure Transfer where
  id : ChannelId
  channel : Channel
  step : AddressStep
deriving Repr

/-- Where the bytes of a stretch come from: through the memory map, through the pointer of a
block, or out of the stream decoder. -/
inductive Source where
  | mapped
  | block (base : Pointer)
  | decoder
deriving DecidableEq, Repr

/-- A stretch of the source of a transfer. -/
structure Stretch where
  source : Source
  route : Route
  /-- Whether the stretch lies in work RAM. -/
  taken : Bool
  /-- Bytes left before the next stretch has to be opened. -/
  left : Nat
deriving Repr

/-- What a transfer carries from one byte to the next. -/
inductive Progress where
  | idle
  | collecting (place : UnitCursor)
  | sending (place : UnitCursor) (position : UInt16) (stretch : Stretch)
deriving Repr

namespace Transfer

variable {β : Type} [Buses β]

/-- The bytes from an offset to the end of its block, in the direction of the transfer; an address
that does not move stays in its block for the whole transfer. -/
def firstStretch (t : Transfer) (offset : UInt16) : Nat :=
  if t.channel.control.fixed then t.channel.length
  else if t.channel.control.decrement then positionInBlock offset + 1
  else blockSize - positionInBlock offset

/-- Settles how bytes from a source reach the registers. -/
def settleStretch (t : Transfer) (source : Source) (taken : Bool) (left : Nat) (r : Rig β) :
    Stretch × Rig β :=
  let r := r.setWorkRamTaken taken
  let route :=
    match source with
    | .mapped => .ordinary
    | _ => Route.choose t.channel.mode t.channel.port (Buses.remapsVideo r.buses)
  (⟨source, route, taken, left⟩, r)

/-- Opens a stretch of `left` bytes at an offset of the A-bus. -/
def openStretch (t : Transfer) (offset : UInt16) (left : Nat) (r : Rig β) : Stretch × Rig β :=
  let (base, r) := r.blockPointer (.of t.channel.bank offset)
  let source :=
    match base with
    | some p => Source.block p
    | none => .mapped
  t.settleStretch source (isWorkRam t.channel.bank offset) left r

/-- Fetches the byte at a position of a source. -/
def fetch (t : Transfer) (source : Source) (position : UInt16) (r : Rig β) : UInt8 × Rig β :=
  match source with
  | .mapped => r.read (.of t.channel.bank position)
  | .block base => r.peek (base.offset position.toUInt64)
  | .decoder => (r.controller.decoder.byte position, r)

/-- Begins a transfer to the registers. -/
def beginSending (t : Transfer) (decoded : Bool) (r : Rig β) : Progress × Rig β :=
  let place := UnitCursor.start t.channel.mode
  if decoded then
    let (stretch, r) := t.settleStretch .decoder false t.channel.length r
    (.sending place 0 stretch, r)
  else
    let offset := t.channel.address
    let (stretch, r) := t.openStretch offset (t.firstStretch offset) r
    (.sending place offset stretch, r)

/-- Begins a transfer to the A-bus.  Where its registers may be those of the work RAM port while
its bank shows work RAM in part, the use of work RAM is settled byte by byte later on. -/
def beginCollecting (t : Transfer) (r : Rig β) : Progress × Rig β :=
  let r :=
    if t.channel.mayMeetWorkRamPort then r
    else r.setWorkRamTaken (isWorkRamBank t.channel.bank)
  (.collecting (.start t.channel.mode), r)

/-- Collects a byte. -/
def collectByte (t : Transfer) (place : UnitCursor) (r : Rig β) : Rig β :=
  let a := (r.channel t.id).address
  let r := if t.channel.mayMeetWorkRamPort then r.setWorkRamTaken (decide (a < 0x2000)) else r
  let (v, r) := r.readRegister (t.channel.register place.offset)
  r.write (.of t.channel.bank a) v

/-- Sends the byte at a position of a stretch. -/
def sendByte (t : Transfer) (place : UnitCursor) (position : UInt16) (s : Stretch) (r : Rig β) :
    Rig β :=
  let (v, r) := t.fetch s.source position r
  s.route.deliver (t.channel.register place.offset) place.offset v s.taken r

/-- The stretch for the next byte: the one at hand, or a new one if that is used up. -/
def currentStretch (t : Transfer) (s : Stretch) (r : Rig β) : Stretch × Rig β :=
  if s.left = 0 then t.openStretch (r.channel t.id).address blockSize r else (s, r)

/-- Moves one byte. -/
def moveByte (t : Transfer) (progress : Progress) (r : Rig β) : Progress × Rig β :=
  match progress with
  | .idle => (.idle, r)
  | .collecting place => (.collecting place.advance, t.collectByte place r)
  | .sending place position s =>
    let (s, r) := t.currentStretch s r
    (.sending place.advance (position + t.step.word) { s with left := s.left - 1 },
      t.sendByte place position s r)

end Transfer

end DmaController
