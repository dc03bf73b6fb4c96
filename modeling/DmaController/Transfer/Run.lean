import DmaController.Host
import DmaController.Transfer.Byte

/-! # Running a general transfer

`Host.runChannel` runs the transfer of a channel from start to end.  Every byte takes one slow
access; after it the channel counts down and the host catches up on its events.  If a line
transfer on the same channel was among them, as the record of activity tells, the transfer stops
there and then, and the channel keeps the count and the address it has reached.

A transfer that would read work RAM and write it through its own port moves nothing, but counts
down and takes its time all the same. -/

namespace DmaController

namespace Host

variable {κ β : Type} [Buses β] [Schedule κ β]

/-- A byte of channel `i` has been moved: time passes and the events have their turn.  The answer
is whether the transfer goes on. -/
def passByte (h : Host κ β) (i : ChannelId) : Bool × Host κ β :=
  let h := (h.spend slowAccess).settle
  let (ran, activity) := Activity.insideLatch.take h.rig.controller.activity
  (!ran.contains i, h.modifyRig (·.modifyActivity fun _ => activity))

/-- Moves `n` more bytes.  The answer is whether all of them were moved. -/
def moveBytes (t : Transfer) (n : Nat) (progress : Progress) (h : Host κ β) : Bool × Host κ β :=
  match n with
  | 0 => (true, h)
  | n + 1 =>
    let (progress, rig) := t.moveByte progress h.rig
    let (goesOn, h) :=
      ({ h with rig := rig.modifyChannel t.id (·.countDown t.step) }).passByte t.id
    if goesOn then moveBytes t n progress h else (false, h)

/-- Notes in the record of activity that channel `i` starts a general transfer. -/
def noteStart (h : Host κ β) (i : ChannelId) : Host κ β :=
  h.modifyRig (·.modifyActivity fun a =>
    { a with inTransfer := true, busy := true, current := some (UInt8.ofNat i.val) })

/-- Notes in the record of activity that a general transfer is over. -/
def noteEnd (h : Host κ β) : Host κ β :=
  h.modifyRig fun r =>
    ((r.modifyActivity fun a => { a with inTransfer := false, busy := false }).setWorkRamTaken
      false).modifyActivity fun a => { a with current := none }

/-- Looks at the ready register of a fitted decoder, which is used up by that. -/
def takeDecoderReady (h : Host κ β) : Bool × Host κ β :=
  let k := h.rig.controller
  if k.settings.decoderFitted then
    let (ready, decoder) := k.decoder.takeReady
    (ready, h.modifyController fun k => { k with decoder := decoder })
  else (false, h)

/-- Counts a channel down without moving anything. -/
def runIdle (h : Host κ β) (i : ChannelId) : Bool × Host κ β :=
  let c := h.rig.channel i
  let (done, h) := moveBytes ⟨i, c, .up⟩ c.length .idle (h.spend slowAccess)
  (done, h.noteEnd)

/-- Runs a transfer that moves bytes.  A decoder that is ready supplies the bytes of a transfer
from a fixed address, and the address then moves after all. -/
def runMoving (h : Host κ β) (i : ChannelId) : Bool × Host κ β :=
  let c := h.rig.channel i
  let (ready, h) := h.takeDecoderReady
  let decoded := c.control.fixed && ready
  let t : Transfer := ⟨i, c, if decoded then c.control.direction else c.control.step⟩
  let h := h.spend slowAccess
  let (progress, rig) :=
    if c.control.reverse then t.beginCollecting h.rig else t.beginSending decoded h.rig
  let (done, h) := moveBytes t c.length progress { h with rig := rig }
  (done, (if done then h.delayInterrupt else h).noteEnd)

/-- Runs the transfer of channel `i`.  The answer is whether it came to its end. -/
def runChannel (h : Host κ β) (i : ChannelId) : Bool × Host κ β :=
  let h := h.noteStart i
  if (h.rig.channel i).feedsWorkRamItself then h.runIdle i else h.runMoving i

/-- Runs the transfers of a set of channels in ascending order, after one synchronisation with
the processor.  While a transfer runs, nothing happens. -/
def startChannels (h : Host κ β) (m : ChannelMask) : Host κ β :=
  if h.rig.controller.activity.busy || m == ∅ then h
  else
    m.toList.foldl (fun h i => (h.runChannel i).2) (h.spend h.rig.controller.settings.syncDelay)

/-- The processor writes a register of the controller: `$420B` starts transfers, `$420C` enables
line transfers, `$4300`-`$437F` are the channels and `$4801` is the decoder's ready register. -/
def writeRegister (h : Host κ β) (a : UInt16) (v : UInt8) : Host κ β :=
  if a = 0x420B then h.startChannels ⟨v⟩
  else if a = 0x420C then h.modifyController (·.enable ⟨v⟩)
  else if Controller.isChannelRegister a then h.modifyController (·.writeChannelRegister a v)
  else if a = 0x4801 then h.modifyController (·.writeReady v)
  else h

end Host

end DmaController
