import DmaController.Console.Beam
import DmaController.Proofs.LineTransfer.Costs
import DmaController.Proofs.Transfer.Events
import DmaController.Proofs.Work

/-! # The pace of the beam

The count of a host that follows the beam is its place in the line.  Events take time, and each is
carried out only when its position has been reached, so the count runs past positions; but what an
event takes is bounded, and the positions are far enough apart.  `Host.Ahead slack` says that the
parts of the beam agree and that the count is less than `slack` past the position of the next event;
with a slack of 0 no event is due.  Before a general transfer lets events have their turn the slack
is 34 at most: 18 cycles of synchronisation with the processor, 8 for the channel and 8 for the
byte.  `Host.Paced` is what every event keeps from there on (`Host.paced_fire`), with the worst case
behind the lines of all eight channels.

So events that are due come to an end by themselves: there are two of them at most
(`Host.Paced.settles`).  `Host.Settles` is the loop over due events without a bound. -/

namespace DmaController

/-! ### The events that are due -/

/-- Events fall due one after the other, from these hosts on, and then no more. -/
inductive Host.Settles {κ β : Type} [Schedule κ β] :
    Host κ β → List (Host κ β) → Host κ β → Prop
  | done {h : Host κ β} (due : h.isDue = false) : Settles h [] h
  | fire {h h' : Host κ β} {es : List (Host κ β)} (due : h.isDue = true)
      (rest : Settles (Schedule.fire h) es h') : Settles h (h :: es) h'

/-- A limit that is not reached makes no difference. -/
theorem Host.Settles.settleWithin {κ β : Type} [Schedule κ β] {h h' : Host κ β}
    {es : List (Host κ β)} (hs : h.Settles es h') {limit : Nat} (hl : es.length ≤ limit) :
    Host.settleWithin limit h = h' ∧ Host.settleNotes (fun e => [e]) limit h = es := by
  induction hs generalizing limit with
  | @done h hdue =>
      cases limit with
      | zero => exact ⟨rfl, rfl⟩
      | succ limit =>
          rw [Host.settleWithin, Host.settleNotes, hdue]
          exact ⟨rfl, rfl⟩
  | @fire h h' es hdue _ ih =>
      cases limit with
      | zero => cases hl
      | succ limit =>
          obtain ⟨hlast, hevents⟩ := ih (Nat.le_of_succ_le_succ hl)
          rw [Host.settleWithin, Host.settleNotes, hdue, if_pos rfl, if_pos rfl, hlast, hevents]
          exact ⟨rfl, rfl⟩

namespace Beam

/-! ### The beam -/

/-- The event to come is one of the line, at its position. -/
def EventFits (b : Beam) : Prop :=
  match b.event with
  | .beginFrame => b.line = 0 ∧ b.position = beginFramePosition
  | .runLine => b.line ≤ lastVisibleLine ∧ b.position = runLinePosition
  | .endLine => b.position = cyclesPerLine

/-- The parts of a beam agree. -/
structure Consistent (b : Beam) : Prop where
  line_lt : b.line < linesPerFrame
  linesRun_eq : b.linesRun = linesPerFrame * b.frame + b.line
  event_fits : b.EventFits
  pending_iff : b.interruptPending = true ↔ b.line = blankLine
  position_iff : b.interruptPosition.isSome = true ↔ b.line = blankLine

/-- The beam with its next event behind it. -/
def passed (b : Beam) : Beam :=
  match b.event with
  | .beginFrame => b.await .runLine runLinePosition
  | .runLine => b.await .endLine cyclesPerLine
  | .endLine => b.nextLine

/-- Every event comes within the line. -/
theorem Consistent.position_le {b : Beam} (h : b.Consistent) : b.position ≤ cyclesPerLine := by
  have hfits := h.event_fits
  unfold EventFits at hfits
  cases hevent : b.event with
  | beginFrame =>
      rw [hevent] at hfits
      rw [hfits.2]
      decide
  | runLine =>
      rw [hevent] at hfits
      rw [hfits.2]
      decide
  | endLine =>
      rw [hevent] at hfits
      exact Int.le_of_eq hfits

theorem consistent_powerOn : powerOn.Consistent :=
  ⟨by decide, by decide, ⟨rfl, rfl⟩, by decide, by decide⟩

/-- Opening a line schedules its first event and changes nothing else. -/
theorem openLine_eq (b : Beam) : ∃ event position,
    b.openLine = b.await event position ∧ b.openLine.EventFits ∧
      (b.line ≠ 0 → runLinePosition ≤ position) ∧ (b.line = 0 → event = .beginFrame) := by
  unfold openLine
  split
  · rename_i hfirst
    exact ⟨_, _, rfl, ⟨hfirst, rfl⟩, fun h => absurd hfirst h, fun _ => rfl⟩
  · rename_i hfirst
    split
    · rename_i hvisible
      exact ⟨_, _, rfl, ⟨hvisible, rfl⟩, fun _ => Int.le_refl _, fun h => absurd h hfirst⟩
    · exact ⟨_, _, rfl, rfl, fun _ => by decide, fun h => absurd h hfirst⟩

/-- The number of the line that comes next. -/
def lineAfter (b : Beam) : Nat := if b.line + 1 = linesPerFrame then 0 else b.line + 1

/-- The next line opens with the first of its events. -/
theorem nextLine_eq (b : Beam) : ∃ event position,
    b.nextLine =
      { line := b.lineAfter
        frame := if b.line + 1 = linesPerFrame then b.frame + 1 else b.frame
        linesRun := b.linesRun + 1
        event := event
        position := position
        interruptPending := decide (b.lineAfter = blankLine)
        interruptPosition := if b.lineAfter = blankLine then some blankPosition else none } ∧
      b.nextLine.EventFits ∧ (b.lineAfter ≠ 0 → runLinePosition ≤ position) ∧
      (b.lineAfter = 0 → event = .beginFrame) := by
  exact openLine_eq
    { b with
      line := b.lineAfter
      frame := if b.line + 1 = linesPerFrame then b.frame + 1 else b.frame
      linesRun := b.linesRun + 1
      interruptPending := b.lineAfter = blankLine
      interruptPosition := if b.lineAfter = blankLine then some blankPosition else none }

theorem Consistent.nextLine {b : Beam} (h : b.Consistent) : b.nextLine.Consistent := by
  have hline := h.line_lt
  have hrun := h.linesRun_eq
  obtain ⟨event, position, hnext, hfits, -⟩ := b.nextLine_eq
  refine ⟨?_, ?_, hfits, ?_, ?_⟩
  · rw [hnext]
    show b.lineAfter < linesPerFrame
    unfold lineAfter linesPerFrame at *
    split <;> omega
  · rw [hnext]
    show b.linesRun + 1 =
      linesPerFrame * (if b.line + 1 = linesPerFrame then b.frame + 1 else b.frame) + b.lineAfter
    unfold lineAfter linesPerFrame at *
    split <;> omega
  · rw [hnext]
    exact decide_eq_true_iff
  · rw [hnext]
    show (if b.lineAfter = blankLine then some blankPosition else none).isSome = true ↔
      b.lineAfter = blankLine
    split
    · rename_i hblank
      exact ⟨fun _ => hblank, fun _ => rfl⟩
    · rename_i hblank
      exact ⟨fun h => absurd h Bool.false_ne_true, fun h => absurd h hblank⟩

theorem Consistent.passed {b : Beam} (h : b.Consistent) : b.passed.Consistent := by
  have hfits := h.event_fits
  unfold EventFits at hfits
  unfold Beam.passed
  cases hevent : b.event with
  | beginFrame =>
      rw [hevent] at hfits
      refine ⟨h.line_lt, h.linesRun_eq, ⟨?_, rfl⟩, h.pending_iff, h.position_iff⟩
      show b.line ≤ lastVisibleLine
      rw [hfits.1]
      decide
  | runLine => exact ⟨h.line_lt, h.linesRun_eq, rfl, h.pending_iff, h.position_iff⟩
  | endLine => exact h.nextLine

variable {β : Type} [Buses β]

theorem schedule_fire (h : Host Beam β) : (fire h).schedule = h.schedule.passed := by
  unfold fire passed
  cases h.schedule.event <;> rfl

/-- What the next event adds to the count. -/
def costs (h : Host Beam β) : List Int :=
  match h.schedule.event with
  | .beginFrame => h.rig.frameCosts
  | .runLine =>
    let active := h.rig.controller.active
    if active = ∅ then [] else h.rig.lineCosts active
  | .endLine => [-cyclesPerLine]

theorem cycles_fire (h : Host Beam β) :
    (fire h).rig.cycles = h.rig.cycles + (costs h).sum := by
  unfold fire costs
  cases h.schedule.event with
  | beginFrame => exact h.rig.cycles_beginFrame
  | runLine =>
      dsimp only
      split
      · simp
      · exact h.rig.cycles_runLine _
  | endLine => simp [Rig.spend]

theorem settings_fire (h : Host Beam β) :
    (fire h).rig.controller.settings = h.rig.controller.settings := by
  unfold fire
  cases h.schedule.event with
  | beginFrame => exact h.rig.works_beginFrame.settings
  | runLine =>
      dsimp only
      split
      · rfl
      · exact (h.rig.works_runLine _).settings
  | endLine => rfl

end Beam

namespace Beam

/-- The highest count that is reached before the next event is carried out. -/
def latest (b : Beam) : Int :=
  match b.event with
  | .beginFrame => 57
  | .runLine => 1137
  | .endLine => if b.line ≤ lastVisibleLine then 1603 else 1397

end Beam

/-! ### Hosts that follow the beam -/

namespace Host

variable {β : Type}

/-- The count is less than `slack` past the position of the next event. -/
structure Ahead (slack : Int) (h : Host Beam β) : Prop where
  consistent : h.schedule.Consistent
  nonneg : 0 ≤ h.rig.cycles
  lt : h.rig.cycles < h.schedule.position + slack
  sync : h.rig.controller.settings.syncDelay = Settings.standard.syncDelay

/-- The count is no higher than it can be. -/
structure Paced (h : Host Beam β) : Prop where
  consistent : h.schedule.Consistent
  nonneg : 0 ≤ h.rig.cycles
  le_latest : h.rig.cycles ≤ h.schedule.latest
  sync : h.rig.controller.settings.syncDelay = Settings.standard.syncDelay

/-- The position of the next event has been reached. -/
def Due (h : Host Beam β) : Prop := h.schedule.position ≤ h.rig.cycles

variable {h : Host Beam β}

theorem Ahead.mono {slack slack' : Int} (ha : h.Ahead slack) (hs : slack ≤ slack') :
    h.Ahead slack' := by
  have hlt := ha.lt
  exact ⟨ha.consistent, ha.nonneg, by omega, ha.sync⟩

theorem Ahead.spend {slack : Int} (ha : h.Ahead slack) {n : Int} (hn : 0 ≤ n) :
    (h.spend n).Ahead (slack + n) := by
  have hnonneg := ha.nonneg
  have hlt := ha.lt
  refine ⟨ha.consistent, ?_, ?_, ha.sync⟩
  · show 0 ≤ h.rig.cycles + n
    omega
  · show h.rig.cycles + n < h.schedule.position + (slack + n)
    omega

theorem Ahead.paced {slack : Int} (ha : h.Ahead slack) (hs : slack ≤ 34) : h.Paced := by
  have hlt := ha.lt
  have hfits := ha.consistent.event_fits
  refine ⟨ha.consistent, ha.nonneg, ?_, ha.sync⟩
  unfold Beam.EventFits at hfits
  unfold Beam.latest
  cases hevent : h.schedule.event with
  | beginFrame =>
      rw [hevent] at hfits
      rw [show h.schedule.position = 24 from hfits.2] at hlt
      dsimp only
      omega
  | runLine =>
      rw [hevent] at hfits
      rw [show h.schedule.position = 1104 from hfits.2] at hlt
      dsimp only
      omega
  | endLine =>
      rw [hevent] at hfits
      rw [show h.schedule.position = 1364 from hfits] at hlt
      dsimp only
      split <;> omega

theorem Paced.ahead (hp : h.Paced) (hdue : ¬ h.Due) : h.Ahead 0 := by
  unfold Due at hdue
  exact ⟨hp.consistent, hp.nonneg, by omega, hp.sync⟩

theorem Paced.beginFrame (hp : h.Paced) (hevent : h.schedule.event = .beginFrame) :
    h.schedule.line = 0 ∧ h.schedule.position = 24 ∧ h.rig.cycles ≤ 57 := by
  have hfits := hp.consistent.event_fits
  have hle := hp.le_latest
  unfold Beam.EventFits at hfits
  unfold Beam.latest at hle
  rw [hevent] at hfits hle
  exact ⟨hfits.1, hfits.2, hle⟩

theorem Paced.runLine (hp : h.Paced) (hevent : h.schedule.event = .runLine) :
    h.schedule.line ≤ Beam.lastVisibleLine ∧ h.schedule.position = 1104 ∧
      h.rig.cycles ≤ 1137 := by
  have hfits := hp.consistent.event_fits
  have hle := hp.le_latest
  unfold Beam.EventFits at hfits
  unfold Beam.latest at hle
  rw [hevent] at hfits hle
  exact ⟨hfits.1, hfits.2, hle⟩

theorem Paced.endLine (hp : h.Paced) (hevent : h.schedule.event = .endLine) :
    h.schedule.position = 1364 ∧ h.rig.cycles ≤ 1603 ∧
      (Beam.lastVisibleLine < h.schedule.line → h.rig.cycles ≤ 1397) := by
  have hfits := hp.consistent.event_fits
  have hle := hp.le_latest
  unfold Beam.EventFits at hfits
  unfold Beam.latest at hle
  rw [hevent] at hfits hle
  dsimp only at hle
  refine ⟨hfits, ?_, ?_⟩ <;> split at hle <;> omega

theorem Paced.le_max (hp : h.Paced) : h.rig.cycles ≤ 1603 := by
  cases hevent : h.schedule.event with
  | beginFrame =>
      have hle := (hp.beginFrame hevent).2.2
      omega
  | runLine =>
      have hle := (hp.runLine hevent).2.2
      omega
  | endLine => exact (hp.endLine hevent).2.1

variable [Buses β]

theorem isDue_iff : h.isDue = true ↔ h.Due := decide_eq_true_iff

theorem Paced.consistent_fire (hp : h.Paced) : (Beam.fire h).schedule.Consistent :=
  Beam.schedule_fire h ▸ hp.consistent.passed

theorem Paced.sync_fire (hp : h.Paced) :
    (Beam.fire h).rig.controller.settings.syncDelay = Settings.standard.syncDelay := by
  rw [Beam.settings_fire, hp.sync]

theorem Paced.costs_beginFrame (hp : h.Paced) (hevent : h.schedule.event = .beginFrame) :
    CostAtMost 210 (Beam.costs h) := by
  unfold Beam.costs
  rw [hevent]
  exact Rig.frameCosts_atMost hp.sync

theorem Paced.costs_runLine (hp : h.Paced) (hevent : h.schedule.event = .runLine) :
    CostAtMost 466 (Beam.costs h) := by
  unfold Beam.costs
  rw [hevent]
  dsimp only
  split
  · exact .nil (by decide)
  · exact Rig.lineCosts_atMost hp.sync

/-- Behind the beginning of a frame there is time to the first line. -/
theorem Paced.fire_beginFrame (hp : h.Paced) (hevent : h.schedule.event = .beginFrame) :
    (Beam.fire h).Ahead 0 := by
  obtain ⟨-, -, hle⟩ := hp.beginFrame hevent
  have hnonneg := hp.nonneg
  have hcycles := Beam.cycles_fire h
  have hcosts := hp.costs_beginFrame hevent
  have hsum := hcosts.sum_nonneg
  have hsum' := hcosts.sum_le
  refine ⟨hp.consistent_fire, by omega, ?_, hp.sync_fire⟩
  rw [Beam.schedule_fire, Beam.passed, hevent]
  show _ < (1104 : Int) + 0
  omega

/-- A line takes the count to 1603 at most, and its end comes next. -/
theorem Paced.fire_runLine (hp : h.Paced) (hevent : h.schedule.event = .runLine) :
    (Beam.fire h).Paced ∧
      (Beam.fire h).schedule = h.schedule.await .endLine Beam.cyclesPerLine := by
  obtain ⟨hvisible, -, hle⟩ := hp.runLine hevent
  have hnonneg := hp.nonneg
  have hcycles := Beam.cycles_fire h
  have hcosts := hp.costs_runLine hevent
  have hsum := hcosts.sum_nonneg
  have hsum' := hcosts.sum_le
  have hschedule : (Beam.fire h).schedule = h.schedule.await .endLine Beam.cyclesPerLine := by
    rw [Beam.schedule_fire, Beam.passed, hevent]
  refine ⟨⟨hp.consistent_fire, by omega, ?_, hp.sync_fire⟩, hschedule⟩
  rw [hschedule, Beam.latest]
  show _ ≤ if h.schedule.line ≤ Beam.lastVisibleLine then (1603 : Int) else 1397
  rw [if_pos hvisible]
  omega

/-- The end of a line takes its cycles off the count. -/
theorem fire_of_endLine (hevent : h.schedule.event = .endLine) :
    (Beam.fire h).rig.cycles = h.rig.cycles - 1364 ∧
      (Beam.fire h).schedule = h.schedule.nextLine := by
  constructor
  · rw [Beam.cycles_fire, Beam.costs, hevent]
    simp [Beam.cyclesPerLine, Int.sub_eq_add_neg]
  · rw [Beam.schedule_fire, Beam.passed, hevent]

/-- With the last line a frame ends, in which nothing has run for long, and the next one is to
begin. -/
theorem Paced.fire_lastLine (hp : h.Paced) (hevent : h.schedule.event = .endLine) (hdue : h.Due)
    (hwrap : h.schedule.lineAfter = 0) :
    Beam.lastVisibleLine < h.schedule.line ∧ (Beam.fire h).Ahead 34 ∧
      (Beam.fire h).schedule.event = .beginFrame := by
  obtain ⟨hposition, -, hquiet⟩ := hp.endLine hevent
  obtain ⟨hcycles, hschedule⟩ := fire_of_endLine hevent
  obtain ⟨event, position, hopened, -, -, hfirst⟩ := h.schedule.nextLine_eq
  have hline := hp.consistent.line_lt
  have hlast : Beam.lastVisibleLine < h.schedule.line := by
    unfold Beam.lineAfter Beam.linesPerFrame at hwrap
    unfold Beam.lastVisibleLine
    split at hwrap <;> omega
  have hle := hquiet hlast
  have hnext := hp.consistent_fire
  have hsync := hp.sync_fire
  generalize Beam.fire h = g at hcycles hschedule hnext hsync ⊢
  unfold Due at hdue
  have hbegins : g.schedule.event = .beginFrame := by
    rw [hschedule, hopened]
    exact hfirst hwrap
  refine ⟨hlast, ⟨hnext, by omega, ?_, hsync⟩, hbegins⟩
  have hfits := hnext.event_fits
  unfold Beam.EventFits at hfits
  rw [hbegins] at hfits
  rw [show g.schedule.position = 24 from hfits.2]
  omega

/-- Behind any other line the next event is far. -/
theorem Paced.fire_innerLine (hp : h.Paced) (hevent : h.schedule.event = .endLine) (hdue : h.Due)
    (hinner : h.schedule.lineAfter ≠ 0) : (Beam.fire h).Ahead 0 := by
  obtain ⟨hposition, hle, -⟩ := hp.endLine hevent
  obtain ⟨hcycles, hschedule⟩ := fire_of_endLine hevent
  obtain ⟨event, position, hopened, -, hlater, -⟩ := h.schedule.nextLine_eq
  have hfar : (1104 : Int) ≤ position := hlater hinner
  unfold Due at hdue
  refine ⟨hp.consistent_fire, by omega, ?_, hp.sync_fire⟩
  rw [hcycles, hschedule, hopened]
  show _ < position + 0
  omega

/-- An event may be due behind the end of a line only if it is the beginning of a frame and the end
of the line came late. -/
theorem Paced.fire_endLine (hp : h.Paced) (hevent : h.schedule.event = .endLine) (hdue : h.Due) :
    (Beam.fire h).Paced ∧
      ((Beam.fire h).Ahead 0 ∨
        (Beam.fire h).schedule.event = .beginFrame ∧
          Beam.lastVisibleLine < h.schedule.line ∧ h.schedule.position < h.rig.cycles) := by
  by_cases hwrap : h.schedule.lineAfter = 0
  · obtain ⟨hlast, hahead, hbegins⟩ := hp.fire_lastLine hevent hdue hwrap
    have hpaced := hahead.paced (Int.le_refl _)
    refine ⟨hpaced, ?_⟩
    by_cases hdue' : (Beam.fire h).Due
    · have hposition := (hp.endLine hevent).1
      have hposition' := (hpaced.beginFrame hbegins).2.1
      have hcycles := (fire_of_endLine hevent).1
      unfold Due at hdue'
      exact .inr ⟨hbegins, hlast, by omega⟩
    · exact .inl (hpaced.ahead hdue')
  · have hahead := hp.fire_innerLine hevent hdue hwrap
    exact ⟨hahead.paced (by decide), .inl hahead⟩

/-- Every event that is due keeps the pace. -/
theorem Paced.paced_fire (hp : h.Paced) (hdue : h.Due) : (Beam.fire h).Paced := by
  cases hevent : h.schedule.event with
  | beginFrame => exact (hp.fire_beginFrame hevent).paced (by decide)
  | runLine => exact (hp.fire_runLine hevent).1
  | endLine => exact (hp.fire_endLine hevent hdue).1

theorem Ahead.settles (ha : h.Ahead 0) : h.Settles [] h := by
  have hlt := ha.lt
  have hdue : ¬ h.Due := by
    unfold Due
    omega
  exact .done (by rw [← Bool.not_eq_true, isDue_iff]; exact hdue)

/-- After at most `n` events no more is due. -/
def SettlesIn (n : Nat) (h : Host Beam β) : Prop :=
  ∃ es h', h.Settles es h' ∧ es.length ≤ n ∧ h'.Ahead 0

theorem Ahead.settlesIn (ha : h.Ahead 0) (n : Nat) : h.SettlesIn n :=
  ⟨[], h, ha.settles, Nat.zero_le n, ha⟩

theorem SettlesIn.fire {n : Nat} (hs : (Beam.fire h).SettlesIn n) (hdue : h.Due) :
    h.SettlesIn (n + 1) := by
  obtain ⟨es, h', hsettles, hlength, ha⟩ := hs
  exact ⟨h :: es, h', .fire (isDue_iff.mpr hdue) hsettles, Nat.succ_le_succ hlength, ha⟩

/-- Whatever is due at a host that keeps the pace, two events settle it: the end of a line may
follow the line, and the beginning of a frame the end of the last line, but nothing follows
those. -/
theorem Paced.settles (hp : h.Paced) : h.SettlesIn 2 := by
  by_cases hdue : h.Due
  · refine SettlesIn.fire ?_ hdue
    cases hevent : h.schedule.event with
    | beginFrame => exact (hp.fire_beginFrame hevent).settlesIn 1
    | runLine =>
        obtain ⟨hp', hschedule⟩ := hp.fire_runLine hevent
        have hvisible : (Beam.fire h).schedule.line ≤ Beam.lastVisibleLine := by
          rw [hschedule]
          exact (hp.runLine hevent).1
        by_cases hdue' : (Beam.fire h).Due
        · refine SettlesIn.fire ?_ hdue'
          rcases (hp'.fire_endLine (by rw [hschedule]; rfl) hdue').2 with ha | ⟨-, hlast, -⟩
          · exact ha.settlesIn 0
          · omega
        · exact (hp'.ahead hdue').settlesIn 1
    | endLine =>
        obtain ⟨hp', ha | ⟨hfirst, -⟩⟩ := hp.fire_endLine hevent hdue
        · exact ha.settlesIn 1
        · by_cases hdue' : (Beam.fire h).Due
          · exact SettlesIn.fire ((hp'.fire_beginFrame hfirst).settlesIn 0) hdue'
          · exact (hp'.ahead hdue').settlesIn 1
  · exact (hp.ahead hdue).settlesIn 2

end Host

end DmaController
