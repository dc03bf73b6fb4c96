import DmaController.Console.Board
import DmaController.Proofs.Transfer.Nested
import DmaController.Proofs.Transfer.Poised
import Mathlib.Algebra.Ring.Int.Defs

/-! # The timeline of a general transfer

A general transfer runs in five kinds of loop, and all of them keep to one timeline: a byte is
moved and counted at once (`Moved`), then its time passes and the events have their turn, and then
either the next byte follows or the transfer stops.  `Timeline note t h bytes h'` says that the
bytes of `t` have led from `h` to `h'` in this way; it holds of every run of the loop
(`timeline_moveBytes`), however it ends.

What a transfer itself does to the clock, to the schedule and to the counters of its channel is
then a matter of how many bytes there were: eight cycles for each (`Timeline.cycles`), nothing
(`Timeline.handed`), one step (`Timeline.address`, `Timeline.count`).  So a transfer takes eight
cycles and eight more for each byte beside the time of its events, and with a clock that is
`Detached` from the rig any two transfers of the same length meet the same events at the same
positions (`runChannel_timing`). -/

namespace DmaController

namespace Host

variable {κ β γ : Type} [Schedule κ β]

/-- The cycles that events take, each for itself. -/
def eventTime (events : List (Host κ β)) : Int :=
  (events.map fun e => (Schedule.fire e).rig.cycles - e.rig.cycles).sum

/-- A schedule goes through events one after the other, and nothing but the events changes it. -/
def Handed (k : κ) : List (Host κ β) → κ → Prop
  | [], k' => k' = k
  | e :: events, k' => e.schedule = k ∧ Handed (Schedule.fire e).schedule events k'

theorem eventTime_append (events events' : List (Host κ β)) :
    eventTime (events ++ events') = eventTime events + eventTime events' := by
  simp only [eventTime, List.map_append, List.sum_append]

theorem Handed.append {k k' k'' : κ} {events events' : List (Host κ β)}
    (h : Handed k events k') (h' : Handed k' events' k'') : Handed k (events ++ events') k'' := by
  induction events generalizing k with
  | nil =>
      cases h
      exact h'
  | cons e events ih => exact ⟨h.1, ih h.2⟩

/-! ### Catching up -/

theorem eventTime_settleWithin (limit : Nat) (h : Host κ β) :
    (settleWithin limit h).rig.cycles =
      h.rig.cycles + eventTime (settleNotes (fun e => [e]) limit h) := by
  induction limit generalizing h with
  | zero => exact (Int.add_zero _).symm
  | succ limit ih =>
      unfold settleWithin settleNotes
      split
      · rw [ih, eventTime_append]
        simp only [eventTime, List.map_cons, List.map_nil, List.sum_cons, List.sum_nil]
        omega
      · exact (Int.add_zero _).symm

theorem handed_settleWithin (limit : Nat) (h : Host κ β) :
    Handed h.schedule (settleNotes (fun e => [e]) limit h) (settleWithin limit h).schedule := by
  induction limit generalizing h with
  | zero => rfl
  | succ limit ih =>
      unfold settleWithin settleNotes
      split
      · exact ⟨rfl, ih _⟩
      · rfl

variable [Buses β]

/-! ### The loop -/

/-- From `h` to `done` a transfer has moved a byte and counted it.  No time has passed meanwhile,
and no event has had its turn. -/
structure Moved (t : Transfer) (h done : Host κ β) : Prop where
  rig : ∃ progress,
    done.rig = (t.moveByte progress h.rig).2.modifyChannel t.id (·.countDown t.step)
  channel : ∀ j, done.rig.channel j =
    if t.id = j then (h.rig.channel t.id).countDown t.step else h.rig.channel j
  cycles : done.rig.cycles = h.rig.cycles
  schedule : done.schedule = h.schedule

/-- The bytes of a transfer have led from one host to another: each is moved and counted, and then
passes by while the host catches up on its events, once.  An entry is the host when a byte is done
and what `note` says of the events after it. -/
inductive Timeline (note : Host κ β → List γ) (t : Transfer) :
    Host κ β → List (Host κ β × List γ) → Host κ β → Prop
  | stop (h : Host κ β) : Timeline note t h [] h
  | byte {h done h' : Host κ β} {bytes : List (Host κ β × List γ)} (moved : Moved t h done)
      (rest : Timeline note t (done.passByte t.id).2 bytes h') :
      Timeline note t h
        ((done, settleNotes note settleLimit (done.spend slowAccess)) :: bytes) h'

omit [Schedule κ β] in
theorem moved_byteDone (t : Transfer) (progress : Progress) (h : Host κ β) :
    Moved t h (h.byteDone t progress) :=
  ⟨⟨progress, rfl⟩, channel_byteDone t progress h, t.cycles_moveByte progress h.rig, rfl⟩

theorem timeline_moveBytes (note : Host κ β → List γ) (t : Transfer) (n : Nat)
    (progress : Progress) (h : Host κ β) :
    Timeline note t h (byteNotes note t n progress h) (moveBytes t n progress h).2 := by
  induction n generalizing progress h with
  | zero => exact .stop h
  | succ n ih =>
      rw [moveBytes_succ, byteNotes]
      refine .byte (moved_byteDone t progress h) ?_
      split
      · exact ih _ _
      · exact .stop _

/-- A transfer has no more bytes than it is long, and as many if it comes to its end. -/
theorem length_byteNotes (note : Host κ β → List γ) (t : Transfer) (n : Nat) (progress : Progress)
    (h : Host κ β) :
    (byteNotes note t n progress h).length ≤ n ∧
      ((moveBytes t n progress h).1 = true → (byteNotes note t n progress h).length = n) := by
  induction n generalizing progress h with
  | zero => exact ⟨Nat.le_refl 0, fun _ => rfl⟩
  | succ n ih =>
      rw [moveBytes_succ, byteNotes]
      split
      · obtain ⟨hle, heq⟩ :=
          ih (t.moveByte progress h.rig).1 ((h.byteDone t progress).passByte t.id).2
        exact ⟨Nat.succ_le_succ hle, fun hdone => congrArg Nat.succ (heq hdone)⟩
      · exact ⟨Nat.succ_le_succ (Nat.zero_le n), fun hdone => absurd hdone Bool.false_ne_true⟩

namespace Timeline

variable {t : Transfer} {h h' : Host κ β}

/-- Every byte takes one slow access, beside the time of the events. -/
theorem cycles {bytes : List (Host κ β × List (Host κ β))}
    (line : Timeline (fun e => [e]) t h bytes h') :
    h'.rig.cycles =
      h.rig.cycles + slowAccess * bytes.length + eventTime (bytes.flatMap Prod.snd) := by
  induction line with
  | stop h =>
      show h.rig.cycles = h.rig.cycles + slowAccess * 0 + 0
      omega
  | @byte h done h' bytes moved _ ih =>
      have hpassed : (done.passByte t.id).2.rig.cycles = done.rig.cycles + slowAccess +
          eventTime (settleNotes (fun e => [e]) settleLimit (done.spend slowAccess)) :=
        eventTime_settleWithin settleLimit (done.spend slowAccess)
      rw [ih, hpassed, moved.cycles, List.flatMap_cons, eventTime_append, List.length_cons]
      unfold slowAccess
      dsimp only
      omega

/-- The schedule belongs to the events. -/
theorem handed {bytes : List (Host κ β × List (Host κ β))}
    (line : Timeline (fun e => [e]) t h bytes h') :
    Handed h.schedule (bytes.flatMap Prod.snd) h'.schedule := by
  induction line with
  | stop h => rfl
  | @byte h done h' bytes moved _ ih =>
      have hpassed : Handed h.schedule
          (settleNotes (fun e => [e]) settleLimit (done.spend slowAccess))
          (done.passByte t.id).2.schedule :=
        moved.schedule ▸ handed_settleWithin settleLimit (done.spend slowAccess)
      exact hpassed.append ih

/-- If the events leave the address of its channel alone, a transfer steps it on with every byte. -/
theorem address {bytes : List (Host κ β × List γ)} {note : Host κ β → List γ}
    (line : Timeline note t h bytes h')
    (hfire : ∀ e : Host κ β, ((Schedule.fire e).rig.channel t.id).address =
      (e.rig.channel t.id).address) :
    (h'.rig.channel t.id).address =
      (h.rig.channel t.id).address + UInt16.ofNat bytes.length * t.step.word := by
  induction line with
  | stop h =>
      show (h.rig.channel t.id).address = (h.rig.channel t.id).address + 0 * t.step.word
      rw [UInt16.zero_mul, UInt16.add_zero]
  | @byte h done h' bytes moved _ ih =>
      have hstepped : (done.rig.channel t.id).address =
          (h.rig.channel t.id).address + t.step.word := by
        rw [moved.channel, if_pos rfl]
        rfl
      have hpassed : ((done.passByte t.id).2.rig.channel t.id).address =
          (done.rig.channel t.id).address :=
        settleWithin_induction
          (P := fun e : Host κ β => (e.rig.channel t.id).address =
            (done.rig.channel t.id).address)
          (fun e he => (hfire e).trans he) settleLimit (h := done.spend slowAccess) rfl
      rw [ih, hpassed, hstepped, List.length_cons, t.step.word_succ, UInt16.add_assoc,
        UInt16.add_comm t.step.word]

end Timeline

/-! ### Whole transfers -/

omit [Schedule κ β] in
theorem cycles_prepare (h : Host κ β) (i : ChannelId) :
    (h.prepare i).2.2.rig.cycles = h.rig.cycles + slowAccess := by
  unfold prepare
  dsimp only
  split
  · rfl
  · obtain ⟨d, hready⟩ := (h.noteStart i).takeDecoderReady_snd
    rw [hready]
    exact Transfer.cycles_begin _ _ _

omit [Schedule κ β] in
theorem schedule_prepare (h : Host κ β) (i : ChannelId) :
    (h.prepare i).2.2.schedule = h.schedule :=
  congrArg (fun prepared => prepared.2.2.schedule) (h.prepare_schedule h.schedule i)

/-- A transfer is its timeline, between what prepares it and what concludes it. -/
theorem timeline_runChannel (note : Host κ β → List γ) (h : Host κ β) (i : ChannelId) :
    ∃ stop : Host κ β,
      Timeline note (h.prepare i).1 (h.prepare i).2.2 (h.transferNotes note i) stop ∧
      (h.runChannel i).2 =
        stop.conclude (h.rig.channel i).feedsWorkRamItself (h.runChannel i).1 := by
  rw [runChannel_eq]
  unfold transferNotes
  generalize h.prepare i = prepared
  obtain ⟨t, progress, start⟩ := prepared
  exact ⟨_, timeline_moveBytes note t _ progress start, rfl⟩

theorem length_transferNotes (note : Host κ β → List γ) (h : Host κ β) (i : ChannelId) :
    (h.transferNotes note i).length ≤ (h.rig.channel i).length ∧
      ((h.runChannel i).1 = true →
        (h.transferNotes note i).length = (h.rig.channel i).length) := by
  rw [runChannel_eq]
  unfold transferNotes
  generalize h.prepare i = prepared
  obtain ⟨t, progress, start⟩ := prepared
  exact length_byteNotes note t _ progress start

/-- The cycles that the transfer of channel `i` adds itself: one access for the channel, and one for
every byte that it counts down. -/
def ownTime (h : Host κ β) (i : ChannelId) : Int :=
  slowAccess + slowAccess * (h.transferNotes (fun e => [e]) i).length

theorem cycles_runChannel (h : Host κ β) (i : ChannelId) :
    (h.runChannel i).2.rig.cycles = h.rig.cycles + h.ownTime i + eventTime (h.events i) := by
  obtain ⟨stop, line, hstop⟩ := h.timeline_runChannel (fun e => [e]) i
  rw [hstop, cycles_conclude, line.cycles, cycles_prepare, ownTime, events]
  omega

/-- The transfers of several channels take their times one after the other. -/
theorem cycles_turnsOf (l : List ChannelId) (h : Host κ β) :
    (l.foldl (fun h i => (h.runChannel i).2) h).rig.cycles =
      h.rig.cycles + ((Rig.turnsOf (fun h i => (h.runChannel i).2) l h).map fun t =>
        t.1.ownTime t.2 + eventTime (t.1.events t.2)).sum := by
  induction l generalizing h with
  | nil => exact (Int.add_zero _).symm
  | cons i l ih =>
      rw [List.foldl_cons, ih, cycles_runChannel, Rig.turnsOf, List.map_cons, List.sum_cons]
      dsimp only
      omega

end Host

/-! ### Detached clocks -/

/-- The events of a schedule neither read nor change the rig, but for its count of cycles: when the
next one comes is `next` of the schedule, and what it does to schedule and count is `tick`. -/
structure Schedule.Detached (κ β : Type) [Schedule κ β] (next : κ → Option Int)
    (tick : κ → Int → κ × Int) : Prop where
  nextEvent : ∀ k : κ, Schedule.nextEvent β k = next k
  fire : ∀ h : Host κ β, Schedule.fire h =
    ⟨{ h.rig with cycles := (tick h.schedule h.rig.cycles).2 },
      (tick h.schedule h.rig.cycles).1⟩

namespace Host

variable {κ β β' : Type}

/-- The reading of the clock. -/
def clock (h : Host κ β) : κ × Int := (h.schedule, h.rig.cycles)

section

variable [Schedule κ β] [Schedule κ β'] {next : κ → Option Int} {tick : κ → Int → κ × Int}
  (hdetached : Schedule.Detached κ β next tick) (hdetached' : Schedule.Detached κ β' next tick)

include hdetached in
theorem clock_fire (h : Host κ β) :
    (Schedule.fire h).clock = tick h.clock.1 h.clock.2 := by
  rw [hdetached.fire]
  rfl

include hdetached in
theorem controller_fire (h : Host κ β) :
    (Schedule.fire h).rig.controller = h.rig.controller := by
  rw [hdetached.fire]

include hdetached hdetached'

theorem isDue_clock {h : Host κ β} {g : Host κ β'} (hclock : g.clock = h.clock) :
    g.isDue = h.isDue := by
  obtain ⟨hschedule, hcycles⟩ := Prod.ext_iff.mp hclock
  have hnext : g.nextEvent = h.nextEvent := by
    unfold nextEvent
    rw [hdetached'.nextEvent, hdetached.nextEvent]
    exact congrArg next hschedule
  unfold isDue
  rw [hnext, show g.rig.cycles = h.rig.cycles from hcycles]

/-- Two hosts with the same detached clock catch up on the same events at the same readings. -/
theorem settleWithin_clock (limit : Nat) {h : Host κ β} {g : Host κ β'}
    (hclock : g.clock = h.clock) :
    settleNotes (fun e => [e.clock]) limit g = settleNotes (fun e => [e.clock]) limit h ∧
      (settleWithin limit g).clock = (settleWithin limit h).clock := by
  induction limit generalizing h g with
  | zero => exact ⟨rfl, hclock⟩
  | succ limit ih =>
      have hfired : (Schedule.fire g).clock = (Schedule.fire h).clock := by
        rw [clock_fire hdetached, clock_fire hdetached', hclock]
      unfold settleNotes settleWithin
      rw [isDue_clock hdetached hdetached' hclock]
      split
      · obtain ⟨hnotes, hsettled⟩ := ih hfired
        exact ⟨by rw [hclock, hnotes], hsettled⟩
      · exact ⟨rfl, hclock⟩

omit hdetached' in
theorem controller_settleWithin (limit : Nat) (h : Host κ β) :
    (settleWithin limit h).rig.controller = h.rig.controller :=
  settleWithin_induction (P := fun e : Host κ β => e.rig.controller = h.rig.controller)
    (fun e he => (controller_fire hdetached e).trans he) limit rfl

omit hdetached' in
/-- Events that do not touch the record of activity leave a transfer running, unless a word was
left for it before. -/
theorem passByte_detached (h : Host κ β) (i : ChannelId) :
    (h.passByte i).1 = !h.rig.controller.activity.ranInside.contains i ∧
      (h.passByte i).2.rig.controller.activity.ranInside = ∅ := by
  have hcontroller := controller_settleWithin hdetached settleLimit (h.spend slowAccess)
  refine ⟨?_, rfl⟩
  show (!(settleWithin settleLimit _).rig.controller.activity.ranInside.contains i) = _
  rw [hcontroller]
  rfl

/-- A byte passes by at the same reading on both sides, with the same events, and both transfers go
on or neither does. -/
theorem passByte_clock {h : Host κ β} {g : Host κ β'} {i j : ChannelId}
    (hclock : g.clock = h.clock) (hran : g.rig.controller.activity.ranInside.contains j =
      h.rig.controller.activity.ranInside.contains i) :
    (g.passByte j).1 = (h.passByte i).1 ∧ (g.passByte j).2.clock = (h.passByte i).2.clock ∧
      settleNotes (fun e => [e.clock]) settleLimit (g.spend slowAccess) =
        settleNotes (fun e => [e.clock]) settleLimit (h.spend slowAccess) := by
  obtain ⟨hschedule, hcycles⟩ := Prod.ext_iff.mp hclock
  have hspent : (g.spend slowAccess).clock = (h.spend slowAccess).clock :=
    Prod.ext hschedule (congrArg (· + slowAccess) hcycles)
  obtain ⟨hnotes, hsettled⟩ := settleWithin_clock hdetached hdetached' settleLimit hspent
  refine ⟨?_, hsettled, hnotes⟩
  rw [(passByte_detached hdetached h i).1, (passByte_detached hdetached' g j).1, hran]

end

variable [Buses β] [Buses β'] [Schedule κ β] [Schedule κ β']

/-- For each byte of the transfer of channel `i`, the readings of the clock at the events after
it. -/
def readings (h : Host κ β) (i : ChannelId) : List (List (κ × Int)) :=
  (h.transferNotes (fun e => [e.clock]) i).map Prod.snd

variable {next : κ → Option Int} {tick : κ → Int → κ × Int}

/-- Two transfers of the same length meet the same events of a detached clock. -/
theorem moveBytes_clock (hdetached : Schedule.Detached κ β next tick)
    (hdetached' : Schedule.Detached κ β' next tick) (t t' : Transfer) (n : Nat)
    (progress progress' : Progress) {h : Host κ β} {g : Host κ β'} (hclock : g.clock = h.clock)
    (hran : g.rig.controller.activity.ranInside.contains t'.id =
      h.rig.controller.activity.ranInside.contains t.id) :
    (moveBytes t' n progress' g).1 = (moveBytes t n progress h).1 ∧
      (moveBytes t' n progress' g).2.clock = (moveBytes t n progress h).2.clock ∧
      (byteNotes (fun e => [e.clock]) t' n progress' g).map Prod.snd =
        (byteNotes (fun e => [e.clock]) t n progress h).map Prod.snd := by
  induction n generalizing progress progress' h g with
  | zero => exact ⟨rfl, hclock, rfl⟩
  | succ n ih =>
      have hkeeps := keeps_moveByte t progress h.rig
      have hkeeps' := keeps_moveByte t' progress' g.rig
      have hdone : (g.byteDone t' progress').clock = (h.byteDone t progress).clock := by
        obtain ⟨hschedule, hcycles⟩ := Prod.ext_iff.mp hclock
        refine Prod.ext hschedule ?_
        show (g.byteDone t' progress').rig.cycles = (h.byteDone t progress).rig.cycles
        rw [(moved_byteDone t' progress' g).cycles, (moved_byteDone t progress h).cycles]
        exact hcycles
      obtain ⟨hgo, hpassed, hnotes⟩ := passByte_clock hdetached hdetached' hdone
        (i := t.id) (j := t'.id) (hkeeps'.ranInside ▸ hkeeps.ranInside ▸ hran)
      -- Every byte takes the word that was left for its transfer.
      obtain ⟨-, hnone⟩ := passByte_detached hdetached (h.byteDone t progress) t.id
      obtain ⟨-, hnone'⟩ := passByte_detached hdetached' (g.byteDone t' progress') t'.id
      obtain ⟨hend, hlast, hrest⟩ := ih (t.moveByte progress h.rig).1
        (t'.moveByte progress' g.rig).1 hpassed
        (by rw [hnone, hnone', ChannelMask.contains_empty, ChannelMask.contains_empty])
      rw [moveBytes_succ, moveBytes_succ, byteNotes, byteNotes, hgo, List.map_cons,
        List.map_cons, hnotes]
      split
      · exact ⟨hend, hlast, by rw [hrest]⟩
      · exact ⟨rfl, hpassed, rfl⟩

theorem runChannel_clock (hdetached : Schedule.Detached κ β next tick)
    (hdetached' : Schedule.Detached κ β' next tick) {h : Host κ β} {g : Host κ β'}
    {i j : ChannelId} (hclock : g.clock = h.clock)
    (hlength : (g.rig.channel j).length = (h.rig.channel i).length)
    (hran : g.rig.controller.activity.ranInside.contains j =
      h.rig.controller.activity.ranInside.contains i) :
    (g.runChannel j).1 = (h.runChannel i).1 ∧ g.readings j = h.readings i ∧
      (g.runChannel j).2.rig.cycles = (h.runChannel i).2.rig.cycles := by
  obtain ⟨hschedule, hcycles⟩ := Prod.ext_iff.mp hclock
  obtain ⟨d, hkeeps⟩ := h.keeps_prepare i
  obtain ⟨d', hkeeps'⟩ := g.keeps_prepare j
  have hstart : (g.prepare j).2.2.clock = (h.prepare i).2.2.clock := by
    refine Prod.ext ?_ ?_
    · show (g.prepare j).2.2.schedule = (h.prepare i).2.2.schedule
      rw [schedule_prepare, schedule_prepare]
      exact hschedule
    · show (g.prepare j).2.2.rig.cycles = (h.prepare i).2.2.rig.cycles
      rw [cycles_prepare, cycles_prepare]
      exact congrArg (· + slowAccess) hcycles
  have hleft : (g.prepare j).2.2.rig.controller.activity.ranInside.contains (g.prepare j).1.id =
      (h.prepare i).2.2.rig.controller.activity.ranInside.contains (h.prepare i).1.id := by
    rw [prepare_id, prepare_id, hkeeps.ranInside, hkeeps'.ranInside]
    exact hran
  unfold readings transferNotes
  rw [runChannel_eq, runChannel_eq, hlength]
  generalize g.prepare j = prepared' at hstart hleft ⊢
  generalize h.prepare i = prepared at hstart hleft ⊢
  obtain ⟨t, progress, start⟩ := prepared
  obtain ⟨t', progress', start'⟩ := prepared'
  obtain ⟨hend, hlast, hnotes⟩ := moveBytes_clock hdetached hdetached' t t'
    (h.rig.channel i).length progress progress' hstart hleft
  refine ⟨hend, hnotes, ?_⟩
  dsimp only
  rw [cycles_conclude, cycles_conclude]
  exact (Prod.ext_iff.mp hlast).2

end Host

open Host in
/-- A transfer, whatever its loop and its events, adds eight cycles and eight for every byte that it
counts down to those of its events, and every byte is moved and counted before the host catches up
on its events once.  Two transfers of the same length meet the same events of a detached clock.
Transfers that are started together run in ascending order behind one synchronisation, each with its
own time. -/
theorem runChannel_timing {κ β γ : Type} [Buses β] [Buses γ] [Schedule κ β] [Schedule κ γ]
    (h : Host κ β) (i : ChannelId) :
    let bytes := h.transferNotes (fun e => [e]) i
    let length := (h.rig.channel i).length
    ((∃ t start stop, t.id = i ∧ start.clock = (h.schedule, h.rig.cycles + slowAccess) ∧
        (∀ j, start.rig.channel j = h.rig.channel j) ∧
        Timeline (fun e => [e]) t start bytes stop ∧
        (h.runChannel i).2.rig.cycles = stop.rig.cycles) ∧
      bytes.length ≤ length ∧ ((h.runChannel i).1 = true → bytes.length = length) ∧
      (h.runChannel i).2.rig.cycles =
        h.rig.cycles + (slowAccess + slowAccess * bytes.length) + eventTime (h.events i)) ∧
    (∀ (next : κ → Option Int) (tick : κ → Int → κ × Int) (g : Host κ γ) (j : ChannelId),
      Schedule.Detached κ β next tick → Schedule.Detached κ γ next tick → g.clock = h.clock →
      (g.rig.channel j).length = length →
      g.rig.controller.activity.ranInside.contains j =
        h.rig.controller.activity.ranInside.contains i →
      (g.runChannel j).1 = (h.runChannel i).1 ∧ g.readings j = h.readings i ∧
        (g.runChannel j).2.rig.cycles = (h.runChannel i).2.rig.cycles) ∧
    (∀ m : ChannelMask, h.rig.controller.activity.busy = false → m ≠ ∅ →
      (h.starting m).map Prod.snd = m.toList ∧ m.toList.Pairwise (· < ·) ∧
      (h.startChannels m).rig.cycles =
        h.rig.cycles + h.rig.controller.settings.syncDelay +
          ((h.starting m).map fun t => t.1.ownTime t.2 + eventTime (t.1.events t.2)).sum) := by
  intro bytes length
  obtain ⟨hle, heq⟩ := h.length_transferNotes (fun e => [e]) i
  refine ⟨⟨?_, hle, heq, h.cycles_runChannel i⟩, ?_, ?_⟩
  · obtain ⟨stop, line, hstop⟩ := h.timeline_runChannel (fun e => [e]) i
    obtain ⟨hchannel, -, -, -⟩ := h.round_prepare i
    refine ⟨_, _, stop, h.prepare_id i, ?_, hchannel, line, ?_⟩
    · exact Prod.ext (h.schedule_prepare i) (h.cycles_prepare i)
    · rw [hstop, cycles_conclude]
  · intro next tick g j hdetached hdetached' hclock hlength hran
    exact runChannel_clock hdetached hdetached' hclock hlength hran
  · intro m hidle hsome
    have hstarts : (h.rig.controller.activity.busy || m == ∅) = false := by
      simp [hidle, hsome]
    unfold starting startChannels
    simp only [hstarts, Bool.false_eq_true, if_false]
    refine ⟨Rig.map_turnsOf _ _ _, m.sorted_toList, ?_⟩
    exact cycles_turnsOf m.toList (h.spend h.rig.controller.settings.syncDelay)

/-! ### A ticking clock -/

/-- A clock that ticks every hundred cycles, and takes two for it. -/
structure Ticker where
  next : Int
deriving DecidableEq

namespace Ticker

instance {β : Type} : Schedule Ticker β where
  nextEvent k := some k.next
  fire h := ⟨h.rig.spend 2, ⟨h.schedule.next + 100⟩⟩

theorem detached (β : Type) :
    Schedule.Detached Ticker β (fun k => some k.next) fun k n => (⟨k.next + 100⟩, n + 2) :=
  ⟨fun _ => rfl, fun _ => rfl⟩

/-- Channel 4 is about to transfer four bytes between work RAM and a register, with the clock about
to tick. -/
def before (control : UInt8) (port : UInt8) : Host Ticker Board where
  rig :=
    { controller := (Controller.powerOn .standard).setChannel (channelNumber 4)
        { Channel.powerOn with
          control := .ofByte control, port := port, bank := 0x7E, address := 0x1FFE, count := 4 }
      buses := Board.powerOn
      cycles := 0 }
  schedule := ⟨20⟩

/-- Sending to a register across a block and failing to feed work RAM itself take the same time. -/
theorem before_timing :
    let h := before 0x01 0x18
    let g := before 0x00 0x80
    (g.rig.channel 4).feedsWorkRamItself = true ∧
      h.readings 4 = [[], [(⟨20⟩, 24)], [], []] ∧ g.readings 4 = h.readings 4 ∧
      (h.startChannels (.single 4)).rig.cycles = 18 + (8 + 8 * 4) + 2 ∧
      (h.runChannel 4).2.rig.cycles = 8 + 8 * 4 + 2 := by
  intro h g
  obtain ⟨⟨-, -, -, hcycles⟩, hsame, hstart⟩ := runChannel_timing (γ := Board) h 4
  obtain ⟨-, hreadings, -⟩ := hsame _ _ g 4 (detached Board) (detached Board) rfl
    (by decide +kernel) (by decide +kernel)
  obtain ⟨-, -, hstarted⟩ := hstart (.single 4) (by decide +kernel) (by decide)
  refine ⟨by decide +kernel, by decide +kernel, hreadings, ?_, ?_⟩
  · rw [hstarted]
    decide +kernel
  · rw [hcycles]
    decide +kernel

end Ticker

end DmaController
