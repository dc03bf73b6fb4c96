import DmaController.Bench.Recorder
import DmaController.Transfer.Run

/-! # A queue of events

A schedule for a controller on a recorder: events in the order of their positions, and among
equals in the order in which they were queued.  The recorder's log notes the start and the end of
each.

An event may run a transfer, which in turn has to catch up on the events behind it.  Every event
leaves the queue before it is carried out, so this goes at most as deep as the queue is long:
`Agenda.schedule` counts the depth down, and its events see the schedule of one level less. -/

namespace DmaController

/-- An event at a position. -/
structure QueuedEvent where
  position : Int
  action : Action
deriving Repr

/-- A queue of events, and the state of the interrupt of the vertical blank. -/
structure Agenda where
  events : List QueuedEvent
  interruptPending : Bool
  interruptPosition : Option Int
deriving Repr

/-- A controller on a recorder, with a queue of events. -/
abbrev Bench := Host Agenda Recorder

namespace Agenda

/-- An empty queue. -/
def empty : Agenda := ⟨[], false, none⟩

/-- Puts an event behind all those at its position or before. -/
def insertEvent (e : QueuedEvent) : List QueuedEvent → List QueuedEvent
  | [] => [e]
  | d :: es => if d.position ≤ e.position then d :: insertEvent e es else e :: d :: es

/-- Queues an event. -/
def queue (q : Agenda) (e : QueuedEvent) : Agenda := { q with events := insertEvent e q.events }

/-- Adds an entry to the log of the recorder. -/
def note (h : Bench) (e : LogEntry) : Bench := h.modifyRig (·.modifyBuses (Recorder.note e))

section

variable [Buses Recorder] [Schedule Agenda Recorder]

/-- Carries out an action. -/
def carryOut (action : Action) (h : Bench) : Answer × Bench :=
  match action with
  | .runLine m =>
    let (running, rig) := h.rig.runLine m
    (.channels running, { h with rig := rig })
  | .runActive =>
    let (running, rig) := h.rig.runLine h.rig.controller.active
    (.channels running, { h with rig := rig })
  | .beginFrame => (.nothing, h.modifyRig Rig.beginFrame)
  | .writeController a v => (.nothing, h.writeRegister a v)
  | .writeBus a v => (.nothing, h.modifyRig (·.writeRegister a v))
  | .runChannel i =>
    let (done, h) := h.runChannel i
    (.done done, h)
  | .pause => (.nothing, h)

/-- Carries out the first event of the queue, if there is one, and notes it in the log. -/
def fireFirst (h : Bench) : Bench :=
  match h.schedule.events with
  | [] => h
  | e :: es =>
    let h := { h with schedule := { h.schedule with events := es } }
    let h := note h (.eventBegins e.action h.rig.cycles h.rig.controller.activity)
    let (answer, h) := carryOut e.action h
    note h (.eventEnds answer h.rig.controller.activity)

end

/-- The schedule of a queue whose events are carried out by `fire`; `reporting` says whether it
knows about the interrupt of the vertical blank. -/
@[reducible] def scheduleOf (reporting : Bool) (fire : Bench → Bench) :
    Schedule Agenda Recorder :=
  let base : Schedule Agenda Recorder :=
    { nextEvent := fun q => q.events.head?.map QueuedEvent.position
      fire := fire }
  if reporting then
    { base with
      interruptPending := Agenda.interruptPending
      interruptPosition := Agenda.interruptPosition
      setInterruptPosition := fun p q => { q with interruptPosition := some p } }
  else base

/-- The schedule of a queue, for events nested up to a depth. -/
@[reducible] def schedule (buses : Buses Recorder) (reporting : Bool) :
    Nat → Schedule Agenda Recorder
  | 0 => scheduleOf reporting id
  | depth + 1 =>
    scheduleOf reporting (@fireFirst buses (schedule buses reporting depth))

end Agenda

end DmaController
