import DmaController.Host

/-! # The beam of the screen

The schedule of a console.  A frame has 262 lines of 1364 cycles each, and positions are counted
from the start of the line.  Line transfers are prepared near the start of line 0 and run near the
end of each of the lines 0 to 224; the interrupt of the vertical blank is pending during line 225.
Every line closes with an event of its own, which takes the cycles of the line off the count. -/

namespace DmaController

/-- The events of a line. -/
inductive BeamEvent where
  | beginFrame
  | runLine
  | endLine
deriving DecidableEq, Repr

/-- The place of the beam, and the event to come. -/
structure Beam where
  line : Nat
  frame : Nat
  linesRun : Nat
  event : BeamEvent
  position : Int
  interruptPending : Bool
  interruptPosition : Option Int
deriving DecidableEq, Repr

namespace Beam

/-- Master cycles in a line. -/
def cyclesPerLine : Int := 1364

/-- Lines in a frame. -/
def linesPerFrame : Nat := 262

/-- The last line that is seen. -/
def lastVisibleLine : Nat := 224

/-- The line on which the vertical blank begins. -/
def blankLine : Nat := 225

/-- Where in line 0 line transfers are prepared. -/
def beginFramePosition : Int := 24

/-- Where in a visible line the line transfers run. -/
def runLinePosition : Int := 1104

/-- Where in its line the interrupt of the vertical blank is taken. -/
def blankPosition : Int := 8

/-- The beam at the top of the first frame. -/
def powerOn : Beam where
  line := 0
  frame := 0
  linesRun := 0
  event := .beginFrame
  position := beginFramePosition
  interruptPending := false
  interruptPosition := none

instance : Inhabited Beam := ⟨powerOn⟩

/-- Schedules an event. -/
def await (b : Beam) (event : BeamEvent) (position : Int) : Beam :=
  { b with event := event, position := position }

/-- Schedules the first event of the line. -/
def openLine (b : Beam) : Beam :=
  if b.line = 0 then b.await .beginFrame beginFramePosition
  else if b.line ≤ lastVisibleLine then b.await .runLine runLinePosition
  else b.await .endLine cyclesPerLine

/-- The beam at the start of the next line. -/
def nextLine (b : Beam) : Beam :=
  let last := b.line + 1 = linesPerFrame
  let line := if last then 0 else b.line + 1
  let blank := line = blankLine
  openLine
    { b with
      line := line
      frame := if last then b.frame + 1 else b.frame
      linesRun := b.linesRun + 1
      interruptPending := blank
      interruptPosition := if blank then some blankPosition else none }

variable {β : Type} [Buses β]

/-- Carries out the event to come. -/
def fire (h : Host Beam β) : Host Beam β :=
  match h.schedule.event with
  | .beginFrame =>
    ⟨h.rig.beginFrame, h.schedule.await .runLine runLinePosition⟩
  | .runLine =>
    let active := h.rig.controller.active
    let rig := if active = ∅ then h.rig else (h.rig.runLine active).2
    ⟨rig, h.schedule.await .endLine cyclesPerLine⟩
  | .endLine => ⟨h.rig.spend (-cyclesPerLine), h.schedule.nextLine⟩

instance : Schedule Beam β where
  nextEvent b := some b.position
  fire := fire
  interruptPending b := b.interruptPending
  interruptPosition b := b.interruptPosition
  setInterruptPosition p b := { b with interruptPosition := some p }

end Beam

end DmaController
