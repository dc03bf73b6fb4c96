import DmaController.LineTransfer.Header
import DmaController.LineTransfer.Send

/-! # Frames and lines

At the top of a frame `beginFrame` rewinds the table of every enabled channel and fetches its
first header.  In the pause after each visible line `runLine` takes the channels it is given
through two rounds: first all of them send their units, then all of them step on to the next line
and, where an entry is used up, fetch a header.  A channel whose table ends leaves the set of
active channels and is remembered as ended until the next frame begins.

Neither operation looks at the time, so no event can come in between; the cycles are counted as
they go by.  Both may run inside a general transfer, and leave the record of activity as they
found it but for `ranInside`, the channels they worked on then. -/

namespace DmaController

namespace Rig

variable {β : Type} [Buses β]

/-- Names the channel at work. -/
def setCurrent (r : Rig β) (i : ChannelId) : Rig β :=
  r.modifyActivity fun a => { a with current := some (UInt8.ofNat i.val) }

/-- The table of channel `i` has ended. -/
def markEnded (r : Rig β) (i : ChannelId) : Rig β :=
  { r with controller := { r.controller with ended := r.controller.ended.insert i } }

/-- Replaces the set of active channels. -/
def setActive (r : Rig β) (m : ChannelMask) : Rig β :=
  { r with controller := { r.controller with active := m } }

/-- Rewinds the table of channel `i` and fetches its first header. -/
def rewind (r : Rig β) (i : ChannelId) : Rig β :=
  let r := (r.setCurrent i).modifyChannel i fun c => { c with table := c.address }
  let (running, r) := r.fetchHeader i
  if running then r else (r.setActive (r.controller.active.erase i)).markEnded i

/-- Takes channel `i` to the top of a frame: an active one is rewound, and any other has nothing
to send. -/
def prepareChannel (r : Rig β) (i : ChannelId) : Rig β :=
  if i ∈ r.controller.active then r.rewind i
  else r.modifyChannel i fun c => { c with pending := false }

/-- Begins a frame. -/
def beginFrame (r : Rig β) : Rig β :=
  let enabled := r.controller.enabled
  let current := r.controller.activity.current
  let r := { r with controller := { r.controller with active := enabled, ended := ∅ } }
  let r := r.modifyActivity fun a => { a with inLine := true, busy := true }
  let r := if enabled = ∅ then r else r.spend r.controller.settings.syncDelay
  let r := (List.finRange 8).foldl prepareChannel r
  r.modifyActivity fun a =>
    { a with
      inLine := false
      busy := a.inTransfer
      current := current
      ranInside := if a.inTransfer then r.controller.active else ∅ }

/-- Steps channel `i` on by a line, after its unit was sent, and takes it out of `running` if its
table ends. -/
def stepLine (running : ChannelMask) (r : Rig β) (i : ChannelId) : ChannelMask × Rig β :=
  let r := r.modifyChannel i fun c =>
    let c := if c.pending then c.passUnit else c
    { c with pending := c.repeats, lines := c.lines - 1 }
  if (r.channel i).lines = 0 then
    let (more, r) := r.fetchHeader i
    if more then (running, r)
    else
      (running.erase i, (r.markEnded i).modifyChannel i fun c => { c with pending := false })
  else (running, r.spend slowAccess)

/-- Sends the unit of channel `i` with nothing known yet about work RAM. -/
def sendInTurn (r : Rig β) (i : ChannelId) : Rig β :=
  ((r.setWorkRamTaken false).setCurrent i).sendUnit i

/-- Runs the channels of `m` through the pause after a line.  The answer is those of them whose
tables go on. -/
def runLine (r : Rig β) (m : ChannelMask) : ChannelMask × Rig β :=
  let before := r.controller.activity
  let r := r.modifyActivity fun a =>
    { a with inLine := true, busy := true, ranInside := if a.inTransfer then m else ∅ }
  let r := r.spend r.controller.settings.syncDelay
  let r := m.toList.foldl sendInTurn r
  let (running, r) := m.toList.foldl (fun s i => stepLine s.1 s.2 i) (m, r)
  let r := r.modifyActivity fun a => { a with inLine := false, busy := a.inTransfer }
  let r := r.setWorkRamTaken before.workRamTaken
  let r := r.modifyActivity fun a => { a with current := before.current }
  (running, r.setActive (r.controller.active \ (m \ running)))

end Rig

end DmaController
