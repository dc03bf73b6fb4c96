import DmaController.Activity
import DmaController.Channel.Register
import DmaController.Settings
import DmaController.StreamDecoder

/-! # The controller

The state of the whole unit: eight channels, the sets that govern line transfers, the settings,
the decoder and the record of what is going on.  Three sets govern line transfers: the channels
that the processor *enabled*, those whose tables have *ended* in this frame, and those that are
*active*, that is, still sending.

This module also answers the processor where no bus is needed: `readRegister` for the channel
registers, and the parts of a register write that only change the controller. -/

namespace DmaController

/-- The state of the controller. -/
structure Controller where
  channels : Vector Channel 8
  settings : Settings
  decoder : StreamDecoder
  activity : Activity
  enabled : ChannelMask
  active : ChannelMask
  ended : ChannelMask

namespace Controller

/-- A controller after power-on. -/
def powerOn (settings : Settings) : Controller where
  channels := Vector.replicate 8 .powerOn
  settings := settings
  decoder := .powerOn
  activity := .idle
  enabled := ∅
  active := ∅
  ended := ∅

instance : Inhabited Controller := ⟨powerOn .standard⟩

/-- The channel numbered `i`. -/
def channel (k : Controller) (i : ChannelId) : Channel := k.channels[i]

/-- The controller with channel `i` replaced. -/
def setChannel (k : Controller) (i : ChannelId) (c : Channel) : Controller :=
  { k with channels := k.channels.set i c }

@[simp] theorem channel_setChannel (k : Controller) (i j : ChannelId) (c : Channel) :
    (k.setChannel i c).channel j = if i = j then c else k.channel j := by
  simp [channel, setChannel, Vector.getElem_set, Fin.ext_iff]

/-- Puts every channel into its power-on state. -/
def resetChannels (k : Controller) : Controller :=
  { k with channels := Vector.replicate 8 .powerOn }

/-- Whether an address belongs to the channel registers, `$4300`-`$437F`. -/
def isChannelRegister (a : UInt16) : Bool := decide (0x4300 ≤ a) && decide (a ≤ 0x437F)

/-- The channel a channel register belongs to. -/
def channelOf (a : UInt16) : ChannelId := channelNumber (a.toNat / 0x10)

/-- What the processor reads from a register; `none` where nothing answers. -/
def readRegister (k : Controller) (a : UInt16) : Option UInt8 :=
  if isChannelRegister a then (k.channel (channelOf a)).readRegister a.toNat else none

/-- The processor writes a channel register. -/
def writeChannelRegister (k : Controller) (a : UInt16) (v : UInt8) : Controller :=
  k.setChannel (channelOf a) ((k.channel (channelOf a)).writeRegister a.toNat v)

/-- The processor enables channels for line transfers.  While a transfer runs, nothing happens;
otherwise the enabled channels whose tables have not ended become active. -/
def enable (k : Controller) (m : ChannelMask) : Controller :=
  if k.activity.busy then k else { k with enabled := m, active := m \ k.ended }

/-- The processor writes the ready register, which is there if a decoder is fitted. -/
def writeReady (k : Controller) (v : UInt8) : Controller :=
  if k.settings.decoderFitted then { k with decoder := { k.decoder with ready := v } } else k

end Controller

end DmaController
