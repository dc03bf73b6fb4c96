import DmaController.LineTransfer.Frame

/-! # Hosts and schedules

A host is a rig together with a schedule: the events to come, each at a position in master
cycles.  `Schedule κ β` says that values of type `κ` can schedule events over buses of type `β`.
An event may do anything to the host, and in particular run line transfers.

The host catches up on its events (`Host.settle`) after every byte of a general transfer.  An
event may itself take time and so make further events due; a schedule has to move on with every
event for this to end, and `settleLimit` bounds the number of events should it not do so. -/

namespace DmaController

/-- A rig and the schedule of its events. -/
structure Host (κ β : Type) where
  rig : Rig β
  schedule : κ

/-- Schedules of events over buses of type `β`. -/
class Schedule (κ β : Type) where
  /-- The position of the next event, if any. -/
  nextEvent : κ → Option Int
  /-- Carries out the next event. -/
  fire : Host κ β → Host κ β
  /-- Whether the interrupt of the vertical blank is pending. -/
  interruptPending : κ → Bool := fun _ => false
  /-- The position at which that interrupt will be taken, if it is scheduled. -/
  interruptPosition : κ → Option Int := fun _ => none
  /-- Moves that interrupt. -/
  setInterruptPosition : Int → κ → κ := fun _ k => k

/-- A bound on the events that can become due one after the other. -/
def settleLimit : Nat := 0x100000000

namespace Host

variable {κ β : Type}

/-- Changes the rig alone. -/
def modifyRig (h : Host κ β) (f : Rig β → Rig β) : Host κ β := { h with rig := f h.rig }

/-- Changes the controller alone. -/
def modifyController (h : Host κ β) (f : Controller → Controller) : Host κ β :=
  h.modifyRig fun r => { r with controller := f r.controller }

/-- Counts `n` more cycles. -/
def spend (h : Host κ β) (n : Int) : Host κ β := h.modifyRig (·.spend n)

variable [Schedule κ β]

/-- The position of the next event, if any. -/
def nextEvent (h : Host κ β) : Option Int := Schedule.nextEvent β h.schedule

/-- Whether the position of the next event has been reached. -/
def isDue (h : Host κ β) : Bool :=
  match h.nextEvent with
  | some position => decide (position ≤ h.rig.cycles)
  | none => false

/-- Carries out due events, at most `limit` of them. -/
def settleWithin (limit : Nat) (h : Host κ β) : Host κ β :=
  match limit with
  | 0 => h
  | limit + 1 => if h.isDue then settleWithin limit (Schedule.fire h) else h

/-- Carries out events until none is due. -/
def settle (h : Host κ β) : Host κ β := settleWithin settleLimit h

/-- Pushes a pending interrupt back behind a transfer that has just finished. -/
def delayInterrupt (h : Host κ β) : Host κ β :=
  if Schedule.interruptPending β h.schedule
      && (Schedule.interruptPosition β h.schedule).isSome then
    let position := h.rig.cycles + h.rig.controller.settings.interruptDelay
    { h with schedule := Schedule.setInterruptPosition β position h.schedule }
  else h

end Host

end DmaController
