import DmaController.Proofs.Console.Idling
import DmaController.Proofs.Transfer.Timeline

/-! # The timetable of a console

The events of a frame come in a fixed order (`Beam.frameEvents`), and `Beam.upcoming` are those that
are left of the frame at hand.  Carrying out an event takes it off their front, and the last one of
a frame is followed by the next frame (`Beam.upcoming_passed`).  Nothing else moves the beam on.

A `Journal` has entries for the events of a console and for the time that is counted outside of
them; `Operation.trace` are its entries for an operation, from the byte loop of general transfers
and from idling alike.  A relation between consoles that the entries bear out (`Journal.Bears`) is
proved of every operation at once (`Operation.bears`).  One journal has the events, and the relation
says which are upcoming; another has what is added to the count, and the relation says where the
count goes. -/

namespace DmaController

namespace Beam

/-! ### The events of a frame -/

/-- The events of a line from one of them on. -/
def restOfLine : BeamEvent → List BeamEvent
  | .beginFrame => [.beginFrame, .runLine, .endLine]
  | .runLine => [.runLine, .endLine]
  | .endLine => [.endLine]

/-- The events of a line. -/
def lineEvents (line : Nat) : List BeamEvent :=
  if line = 0 then restOfLine .beginFrame
  else if line ≤ lastVisibleLine then restOfLine .runLine
  else restOfLine .endLine

/-- The events of the lines of a frame from one of them on. -/
def eventsFrom (line : Nat) : List BeamEvent :=
  (List.range' line (linesPerFrame - line)).flatMap lineEvents

/-- The events of a frame: it is begun in its first line, lines are run up to line 224, and all 262
lines end. -/
def frameEvents : List BeamEvent :=
  [.beginFrame, .runLine, .endLine] ++ (List.replicate 224 [.runLine, .endLine]).flatten ++
    List.replicate 37 .endLine

theorem eventsFrom_zero : eventsFrom 0 = frameEvents := by decide +kernel

/-- The events of any number of frames. -/
def framesEvents (frames : Nat) : List BeamEvent := (List.replicate frames frameEvents).flatten

theorem framesEvents_add (frames frames' : Nat) :
    framesEvents (frames + frames') = framesEvents frames ++ framesEvents frames' := by
  unfold framesEvents
  rw [← List.replicate_append_replicate, List.flatten_append]

theorem append_framesEvents_sub_self (l : List BeamEvent) (frames : Nat) :
    l ++ framesEvents (frames - frames) = l := by
  rw [Nat.sub_self]
  exact List.append_nil l

/-- The events to come in the frame at hand. -/
def upcoming (b : Beam) : List BeamEvent := restOfLine b.event ++ eventsFrom (b.line + 1)

theorem eventsFrom_of_lt {line : Nat} (h : line < linesPerFrame) :
    eventsFrom line = lineEvents line ++ eventsFrom (line + 1) := by
  have hleft : linesPerFrame - line = (linesPerFrame - (line + 1)) + 1 := by omega
  rw [eventsFrom, hleft, List.range'_succ, List.flatMap_cons]
  rfl

theorem restOfLine_openLine (b : Beam) : restOfLine b.openLine.event = lineEvents b.line := by
  unfold openLine lineEvents
  split
  · rfl
  · split <;> rfl

/-- Carrying out the next event takes it off the front of those to come, and behind the last one of
a frame come those of the next. -/
theorem upcoming_passed {b : Beam} (h : b.Consistent) :
    b.frame ≤ b.passed.frame ∧
      b.event :: b.passed.upcoming = b.upcoming ++ framesEvents (b.passed.frame - b.frame) := by
  have hline := h.line_lt
  cases hevent : b.event with
  | beginFrame =>
      unfold passed upcoming
      rw [hevent]
      exact ⟨Nat.le_refl _, (append_framesEvents_sub_self _ b.frame).symm⟩
  | runLine =>
      unfold passed upcoming
      rw [hevent]
      exact ⟨Nat.le_refl _, (append_framesEvents_sub_self _ b.frame).symm⟩
  | endLine =>
      have hpassed : b.passed = b.nextLine := by rw [passed, hevent]
      obtain ⟨event, position, hnext, -⟩ := b.nextLine_eq
      have hfirst : restOfLine b.nextLine.event = lineEvents b.lineAfter := restOfLine_openLine _
      have hafter : b.nextLine.line = b.lineAfter := by rw [hnext]
      have hframe : b.nextLine.frame =
          if b.line + 1 = linesPerFrame then b.frame + 1 else b.frame := by rw [hnext]
      rw [hpassed, upcoming, upcoming, hfirst, hafter, hframe, hevent]
      unfold lineAfter
      split
      · rename_i hwrap
        have hnone : eventsFrom (b.line + 1) = [] := by
          rw [hwrap]
          rfl
        have hone : b.frame + 1 - b.frame = 1 := by omega
        refine ⟨Nat.le_succ _, ?_⟩
        rw [← eventsFrom_of_lt (by decide), eventsFrom_zero, hnone, hone]
        simp [restOfLine, framesEvents]
      · rename_i hwrap
        refine ⟨Nat.le_refl _, ?_⟩
        rw [← eventsFrom_of_lt (by omega), append_framesEvents_sub_self]
        rfl

/-- Two beams differ in where the interrupt is taken at most. -/
structure Alike (b b' : Beam) : Prop where
  eq : b' = { b with interruptPosition := b'.interruptPosition }
  isSome_eq : b'.interruptPosition.isSome = b.interruptPosition.isSome

theorem Alike.refl (b : Beam) : b.Alike b := ⟨rfl, rfl⟩

theorem Alike.consistent {b b' : Beam} (h : b.Alike b') (hb : b.Consistent) : b'.Consistent := by
  have hposition := h.isSome_eq
  rw [h.eq] at hposition ⊢
  exact ⟨hb.line_lt, hb.linesRun_eq, hb.event_fits, hb.pending_iff, hposition ▸ hb.position_iff⟩

end Beam

/-! ### Journals -/

/-- A journal of time: what it has on an event, and on an amount counted outside of events. -/
structure Journal (β γ : Type) where
  event : Host Beam β → List γ
  time : Int → List γ

/-- A relation between hosts that the entries of a journal bear out. -/
structure Journal.Bears {β γ : Type} [Buses β] (n : Journal β γ)
    (R : Host Beam β → List γ → Host Beam β → Prop) : Prop where
  /-- What takes no time leaves no entry. -/
  aside : ∀ {h e : Host Beam β}, h.Paced → e.rig.cycles = h.rig.cycles →
    h.schedule.Alike e.schedule → R h [] e
  trans : ∀ {h h' h'' : Host Beam β} {xs ys : List γ}, R h xs h' → R h' ys h'' → R h (xs ++ ys) h''
  time : ∀ {h : Host Beam β} {k : Int}, h.Paced → (h.spend k).Paced →
    R h (n.time k) (h.spend k)
  event : ∀ {h : Host Beam β}, h.Paced → h.Due → R h (n.event h) (Beam.fire h)

namespace Host

variable {β γ : Type}

/-- What takes no time leaves a host as far ahead as it was. -/
theorem Ahead.aside {slack : Int} {h h' : Host Beam β} (ha : h.Ahead slack)
    (cycles : h'.rig.cycles = h.rig.cycles) (schedule : h.schedule.Alike h'.schedule)
    (settings : h'.rig.controller.settings = h.rig.controller.settings) : h'.Ahead slack := by
  refine ⟨schedule.consistent ha.consistent, ?_, ?_, ?_⟩
  · rw [cycles]
    exact ha.nonneg
  · rw [cycles, schedule.eq]
    exact ha.lt
  · rw [settings]
    exact ha.sync

variable [Buses β] {n : Journal β γ} {R : Host Beam β → List γ → Host Beam β → Prop}
  {h : Host Beam β}

/-- The journal of the bytes of a general transfer. -/
def bytesTrace (n : Journal β γ) (bytes : List (Host Beam β × List γ)) : List γ :=
  bytes.flatMap fun byte => n.time slowAccess ++ byte.2

/-- The journal of the transfer of channel `i`. -/
def transferTrace (n : Journal β γ) (h : Host Beam β) (i : ChannelId) : List γ :=
  n.time slowAccess ++ bytesTrace n (h.transferNotes n.event i)

/-- The journal of the transfers that a set of channels starts. -/
def startTrace (n : Journal β γ) (h : Host Beam β) (m : ChannelMask) : List γ :=
  if h.rig.controller.activity.busy || m == ∅ then []
  else
    n.time h.rig.controller.settings.syncDelay ++
      (h.starting m).flatMap fun t => t.1.transferTrace n t.2

/-- With two events at most, catching up leaves none that is due. -/
theorem Paced.ahead_settle (hp : h.Paced) : h.settle.Ahead 0 := by
  obtain ⟨es, h', hsettles, hlength, ha⟩ := hp.settles
  have hlimit : es.length ≤ settleLimit := Nat.le_trans hlength (by decide)
  rw [settle, (hsettles.settleWithin hlimit).1]
  exact ha

theorem bears_settleWithin (hn : n.Bears R) (limit : Nat) (hp : h.Paced) :
    R h (settleNotes n.event limit h) (settleWithin limit h) := by
  induction limit generalizing h with
  | zero => exact hn.aside hp rfl (.refl _)
  | succ limit ih =>
      unfold settleNotes settleWithin
      split
      · rename_i hdue
        have hdue' := isDue_iff.mp hdue
        exact hn.trans (hn.event hp hdue') (ih (hp.paced_fire hdue'))
      · exact hn.aside hp rfl (.refl _)

omit [Buses β] in
/-- A byte that has been moved takes its time. -/
theorem Ahead.paced_spend (ha : h.Ahead 26) : (h.spend slowAccess).Paced :=
  (ha.spend (by decide)).paced (by decide)

theorem ahead_passByte (ha : h.Ahead 26) (i : ChannelId) : (h.passByte i).2.Ahead 0 :=
  ha.paced_spend.ahead_settle.aside rfl (.refl _) rfl

theorem bears_passByte (hn : n.Bears R) (ha : h.Ahead 26) (i : ChannelId) :
    R h (n.time slowAccess ++ settleNotes n.event settleLimit (h.spend slowAccess))
      (h.passByte i).2 := by
  have hspent := ha.paced_spend
  have htrace := hn.trans (hn.time (ha.paced (by decide)) hspent)
    (bears_settleWithin hn settleLimit hspent)
  have hpassed := hn.trans htrace (hn.aside (e := (h.passByte i).2)
    (hspent.ahead_settle.paced (by decide)) rfl (.refl _))
  rwa [List.append_nil] at hpassed

theorem ahead_byteDone {slack : Int} (ha : h.Ahead slack) (t : Transfer) (progress : Progress) :
    (h.byteDone t progress).Ahead slack :=
  ha.aside (t.cycles_moveByte progress h.rig) (.refl _) (t.works_moveByte progress h.rig).settings

/-- A transfer catches up on its events with every byte. -/
theorem bears_moveBytes (hn : n.Bears R) (t : Transfer) (k : Nat) (progress : Progress)
    {slack : Int} (ha : h.Ahead slack) (hs : slack ≤ 26) :
    (moveBytes t k progress h).2.Ahead (if k = 0 then slack else 0) ∧
      R h (bytesTrace n (byteNotes n.event t k progress h)) (moveBytes t k progress h).2 := by
  induction k generalizing progress h slack with
  | zero => exact ⟨ha, hn.aside (ha.paced (by omega)) rfl (.refl _)⟩
  | succ k ih =>
      have hdone := ahead_byteDone (ha.mono hs) t progress
      have hlast := ahead_passByte hdone t.id
      have hbyte := hn.trans (hn.aside (e := h.byteDone t progress) (ha.paced (by omega))
        (t.cycles_moveByte progress h.rig) (.refl _)) (bears_passByte hn hdone t.id)
      rw [List.nil_append] at hbyte
      rw [if_neg (Nat.succ_ne_zero k), moveBytes_succ, byteNotes, bytesTrace, List.flatMap_cons]
      split
      · obtain ⟨hend, hrest⟩ := ih _ hlast (by decide)
        rw [ite_self] at hend
        exact ⟨hend, hn.trans hbyte hrest⟩
      · refine ⟨hlast, ?_⟩
        rw [List.flatMap_nil, List.append_nil]
        exact hbyte

/-! ### General transfers -/

/-- The end of a transfer moves the interrupt at most. -/
theorem alike_conclude (idle done : Bool) (h : Host Beam β) :
    h.schedule.Alike (h.conclude idle done).schedule := by
  have hdelayed : h.schedule.Alike h.delayInterrupt.schedule := by
    unfold delayInterrupt
    split
    · rename_i hpending
      have hsome : h.schedule.interruptPosition.isSome = true :=
        (Bool.and_eq_true_iff.mp hpending).2
      exact ⟨rfl, hsome.symm⟩
    · exact .refl _
  unfold conclude
  split
  · exact hdelayed
  · exact .refl _

theorem ahead_prepare (ha : h.Ahead 18) (i : ChannelId) : (h.prepare i).2.2.Ahead 26 := by
  have hspent := ha.spend (show 0 ≤ slowAccess by decide)
  exact hspent.aside (h.cycles_prepare i) (h.schedule_prepare i ▸ .refl _) (h.settings_prepare i)

/-- A transfer takes its access for the channel, and then its bytes. -/
theorem bears_runChannel (hn : n.Bears R) (ha : h.Ahead 18) (i : ChannelId) :
    (h.runChannel i).2.Ahead 0 ∧ R h (h.transferTrace n i) (h.runChannel i).2 := by
  have hlength := (h.rig.channel i).length_pos
  have hspent := ha.spend (show 0 ≤ slowAccess by decide)
  have hprepared := ahead_prepare ha i
  have hbegun : R h (n.time slowAccess) (h.prepare i).2.2 := by
    have htrace := hn.trans (hn.time (ha.paced (by decide)) (hspent.paced (by decide)))
      (hn.aside (e := (h.prepare i).2.2) (hspent.paced (by decide)) (h.cycles_prepare i)
        (h.schedule_prepare i ▸ .refl _))
    rwa [List.append_nil] at htrace
  rw [runChannel_eq]
  unfold transferTrace transferNotes
  generalize h.prepare i = prepared at hprepared hbegun ⊢
  obtain ⟨t, progress, start⟩ := prepared
  obtain ⟨hmoved, hbytes⟩ := bears_moveBytes hn t (h.rig.channel i).length progress
    hprepared (by decide)
  rw [if_neg (by omega)] at hmoved
  dsimp only
  generalize moveBytes t (h.rig.channel i).length progress start = moved at hmoved hbytes ⊢
  have hcycles := moved.2.cycles_conclude (h.rig.channel i).feedsWorkRamItself moved.1
  have hschedule := alike_conclude (h.rig.channel i).feedsWorkRamItself moved.1 moved.2
  have hsettings : (moved.2.conclude (h.rig.channel i).feedsWorkRamItself
      moved.1).rig.controller.settings = moved.2.rig.controller.settings := by
    rw [controller_conclude]
  have hended := hn.trans (hn.trans hbegun hbytes)
    (hn.aside (hmoved.paced (by decide)) hcycles hschedule)
  rw [List.append_nil] at hended
  exact ⟨hmoved.aside hcycles hschedule hsettings, hended⟩

end Host

theorem ChannelMask.toList_ne_nil {m : ChannelMask} (h : m ≠ ∅) : m.toList ≠ [] := by
  intro hnil
  refine h (ext_mem fun i => ?_)
  rw [← mem_toList, hnil]
  exact ⟨fun hi => absurd hi List.not_mem_nil, fun hi => absurd hi (not_mem_empty i)⟩

namespace Host

variable {β γ : Type} [Buses β] {n : Journal β γ} {R : Host Beam β → List γ → Host Beam β → Prop}
  {h : Host Beam β}

/-- Transfers run one after the other. -/
theorem bears_turns (hn : n.Bears R) (l : List ChannelId) {slack : Int} (ha : h.Ahead slack)
    (hs : slack ≤ 18) :
    (l.foldl (fun h i => (h.runChannel i).2) h).Ahead (if l = [] then slack else 0) ∧
      R h ((Rig.turnsOf (fun h i => (h.runChannel i).2) l h).flatMap
          fun t => t.1.transferTrace n t.2)
        (l.foldl (fun h i => (h.runChannel i).2) h) ∧
      ∀ t ∈ Rig.turnsOf (fun h i => (h.runChannel i).2) l h, t.1.Ahead 18 := by
  induction l generalizing h slack with
  | nil => exact ⟨ha, hn.aside (ha.paced (by omega)) rfl (.refl _), List.forall_mem_nil _⟩
  | cons i l ih =>
      obtain ⟨hfirst, htrace⟩ := bears_runChannel hn (ha.mono hs) i
      obtain ⟨hlast, hrest, hstarts⟩ := ih hfirst (by decide)
      rw [ite_self] at hlast
      rw [if_neg (List.cons_ne_nil i l)]
      exact ⟨hlast, hn.trans htrace hrest, List.forall_mem_cons.mpr ⟨ha.mono hs, hstarts⟩⟩

theorem bears_startChannels (hn : n.Bears R) (ha : h.Ahead 0) (m : ChannelMask) :
    (h.startChannels m).Ahead 0 ∧ R h (h.startTrace n m) (h.startChannels m) ∧
      ∀ t ∈ h.starting m, t.1.Ahead 18 := by
  unfold startChannels startTrace starting
  split
  · exact ⟨ha, hn.aside (ha.paced (by decide)) rfl (.refl _), List.forall_mem_nil _⟩
  · rename_i hstart
    have hsome : m ≠ ∅ := by
      intro hnone
      simp [hnone] at hstart
    have hspent : (h.spend h.rig.controller.settings.syncDelay).Ahead 18 := by
      have hspend := ha.spend (n := 18) (by decide)
      rwa [ha.sync]
    obtain ⟨hlast, hrest, hstarts⟩ := bears_turns hn m.toList hspent (Int.le_refl _)
    rw [if_neg (ChannelMask.toList_ne_nil hsome)] at hlast
    exact ⟨hlast,
      hn.trans (hn.time (ha.paced (by decide)) (hspent.paced (by decide))) hrest, hstarts⟩

end Host

/-! ### Operations -/

namespace Console

variable {γ : Type}

/-- The journal of idling to the next event, and of the event. -/
def stepTrace (n : Journal Board γ) (m : Console) : List γ :=
  let gap := m.schedule.position - m.rig.cycles
  (if 0 < gap then n.time gap else []) ++ n.event m.atEvent

/-- The journal of idling from event to event. -/
def idleTrace (n : Journal Board γ) (stop : Console → Bool) : Nat → Console → List γ
  | 0, _ => []
  | limit + 1, m =>
      if stop m then [] else m.stepTrace n ++ idleTrace n stop limit m.stepEvent

end Console

namespace Operation

variable {γ : Type}

/-- The journal of an operation. -/
def trace (n : Journal Board γ) : Operation → Console → List γ
  | write a v, m =>
      if Console.isControllerAddress a ∧ Address.offset a = 0x420B then m.startTrace n ⟨v⟩ else []
  | transfer i, m => m.transferTrace n i
  | lines k, m =>
      let target := m.schedule.linesRun + k
      m.idleTrace n (fun m => decide (target ≤ m.schedule.linesRun)) (Console.eventsPerLine * k)
  | frame, m =>
      let frame := m.schedule.frame
      m.idleTrace n (fun m => decide (m.schedule.frame ≠ frame))
        (Console.eventsPerLine * Beam.linesPerFrame)
  | _, _ => []

end Operation

namespace Console

variable {γ : Type} {n : Journal Board γ} {R : Console → List γ → Console → Prop} {m : Console}

theorem bears_stepEvent (hn : n.Bears R) (hp : m.Paced) : R m (m.stepTrace n) m.stepEvent := by
  obtain ⟨hp', hdue, -⟩ := atEvent_due hp
  have hwaited : R m
      (if 0 < m.schedule.position - m.rig.cycles then
        n.time (m.schedule.position - m.rig.cycles) else []) m.atEvent := by
    unfold atEvent at hp' ⊢
    dsimp only at hp' ⊢
    split
    · rename_i hgap
      rw [if_pos hgap] at hp'
      exact hn.time hp hp'
    · exact hn.aside hp rfl (.refl _)
  exact hn.trans hwaited (hn.event hp' hdue)

theorem bears_idleUntil (hn : n.Bears R) (stop : Console → Bool) (limit : Nat) (hp : m.Paced) :
    R m (m.idleTrace n stop limit) (m.idleUntil stop limit) := by
  induction limit generalizing m with
  | zero => exact hn.aside hp rfl (.refl _)
  | succ limit ih =>
      unfold idleTrace idleUntil
      split
      · exact hn.aside hp rfl (.refl _)
      · exact hn.trans (bears_stepEvent hn hp) (ih (paced_stepEvent hp))

/-- A write that starts no transfers takes no time. -/
theorem time_write {a : Address} (ha : ¬(isControllerAddress a ∧ Address.offset a = 0x420B))
    (v : UInt8) :
    (m.write a v).rig.cycles = m.rig.cycles ∧ (m.write a v).schedule = m.schedule ∧
      (m.write a v).rig.controller.settings = m.rig.controller.settings := by
  unfold write
  split
  · rename_i hcontroller
    have hstart : Address.offset a ≠ 0x420B := fun h => ha ⟨hcontroller, h⟩
    unfold Host.writeRegister
    rw [if_neg hstart]
    split
    · refine ⟨rfl, rfl, ?_⟩
      show (m.rig.controller.enable ⟨v⟩).settings = _
      unfold Controller.enable
      split <;> rfl
    split
    · exact ⟨rfl, rfl, rfl⟩
    split
    · refine ⟨rfl, rfl, ?_⟩
      show (m.rig.controller.writeReady v).settings = _
      unfold Controller.writeReady
      split <;> rfl
    · exact ⟨rfl, rfl, rfl⟩
  · exact ⟨rfl, rfl, rfl⟩

end Console

namespace Operation

variable {γ : Type} {n : Journal Board γ} {R : Console → List γ → Console → Prop} {m : Console}

/-- An operation that finds no event due leaves none due, and its journal bears out what it has led
to. -/
theorem bears (hn : n.Bears R) (ha : m.Ahead 0) (op : Operation) :
    (op.run m).Ahead 0 ∧ R m (op.trace n m) (op.run m) ∧
      ∀ t ∈ op.transfers m, t.1.Ahead 18 := by
  have hp := ha.paced (by decide)
  have haside : ∀ m' : Console, m'.rig.cycles = m.rig.cycles → m'.schedule = m.schedule →
      m'.rig.controller.settings = m.rig.controller.settings → m'.Ahead 0 ∧ R m [] m' := by
    intro m' hcycles hschedule hsettings
    exact ⟨ha.aside hcycles (hschedule ▸ .refl _) hsettings,
      hn.aside hp hcycles (hschedule ▸ .refl _)⟩
  cases op with
  | write a v =>
      show (m.write a v).Ahead 0 ∧ R m ((write a v).trace n m) (m.write a v) ∧
        ∀ t ∈ (write a v).transfers m, t.1.Ahead 18
      rw [trace, transfers]
      by_cases hstart : Console.isControllerAddress a = true ∧ Address.offset a = 0x420B
      · rw [if_pos hstart, if_pos hstart, Console.write_of_start hstart]
        exact Host.bears_startChannels hn ha ⟨v⟩
      · obtain ⟨hcycles, hschedule, hsettings⟩ := Console.time_write hstart v
        rw [if_neg hstart, if_neg hstart]
        obtain ⟨hlast, htrace⟩ := haside _ hcycles hschedule hsettings
        exact ⟨hlast, htrace, List.forall_mem_nil _⟩
  | transfer i =>
      obtain ⟨hlast, htrace⟩ := Host.bears_runChannel hn (ha.mono (by decide)) i
      refine ⟨hlast, htrace, fun t ht => ?_⟩
      rw [List.mem_singleton.mp ht]
      exact ha.mono (by decide)
  | lines k =>
      obtain ⟨es, -, -, -, -, hlast⟩ := Console.idles_runLines ha k
      exact ⟨hlast, Console.bears_idleUntil hn _ _ hp, List.forall_mem_nil _⟩
  | frame =>
      obtain ⟨es, -, -, -, -, hlast⟩ := Console.idles_runFrame ha
      exact ⟨hlast, Console.bears_idleUntil hn _ _ hp, List.forall_mem_nil _⟩
  | load a bytes =>
      obtain ⟨hlast, htrace⟩ := haside ((load a bytes).run m) rfl rfl rfl
      exact ⟨hlast, htrace, List.forall_mem_nil _⟩
  | reset =>
      obtain ⟨hlast, htrace⟩ := haside (reset.run m) rfl rfl rfl
      exact ⟨hlast, htrace, List.forall_mem_nil _⟩

end Operation

/-! ### Runs -/

namespace Console

variable {γ : Type} {n : Journal Board γ} {R : Console → List γ → Console → Prop}

/-- The console behind a row of operations. -/
def after (m : Console) (ops : List Operation) : Console := ops.foldl (fun m op => op.run m) m

/-- The journal of a row of operations. -/
def trace (n : Journal Board γ) : Console → List Operation → List γ
  | _, [] => []
  | m, op :: ops => op.trace n m ++ (op.run m).trace n ops

theorem bears_run (hn : n.Bears R) (ops : List Operation) {m : Console} (ha : m.Ahead 0) :
    (m.after ops).Ahead 0 ∧ R m (m.trace n ops) (m.after ops) := by
  induction ops generalizing m with
  | nil => exact ⟨ha, hn.aside (ha.paced (by decide)) rfl (.refl _)⟩
  | cons op ops ih =>
      obtain ⟨hdone, htrace, -⟩ := Operation.bears hn ha op
      obtain ⟨hlast, hrest⟩ := ih hdone
      exact ⟨hlast, hn.trans htrace hrest⟩

theorem ahead_powerOn {settings : Settings}
    (hsync : settings.syncDelay = Settings.standard.syncDelay) : (powerOn settings).Ahead 0 :=
  ⟨Beam.consistent_powerOn, Int.le_refl 0, show (0 : Int) < 24 + 0 by decide, hsync⟩

end Console

/-! ### The events of a run -/

namespace Beam

/-- The journal of the events. -/
def eventJournal : Journal Board BeamEvent := ⟨fun h => [h.schedule.event], fun _ => []⟩

/-- The journal of what is added to the count. -/
def costJournal : Journal Board Int := ⟨costs, fun k => [k]⟩

/-- From `h` to `h'` these events were carried out, as they came. -/
def Unfolds (h : Console) (es : List BeamEvent) (h' : Console) : Prop :=
  h.schedule.frame ≤ h'.schedule.frame ∧
    es ++ h'.schedule.upcoming =
      h.schedule.upcoming ++ framesEvents (h'.schedule.frame - h.schedule.frame)

/-- The count has gone by these amounts from `h` to `h'`, and stayed in range. -/
def Counts (h : Console) (costs : List Int) (h' : Console) : Prop :=
  h'.rig.cycles = h.rig.cycles + costs.sum ∧
    ∀ c ∈ countsFrom h.rig.cycles costs, 0 ≤ c ∧ c ≤ 2727

theorem unfolds_aside {h h' : Console} (alike : h.schedule.Alike h'.schedule) :
    Unfolds h [] h' := by
  have hframe : h'.schedule.frame = h.schedule.frame := by rw [alike.eq]
  have hupcoming : h'.schedule.upcoming = h.schedule.upcoming := by rw [alike.eq]; rfl
  refine ⟨Nat.le_of_eq hframe.symm, ?_⟩
  rw [hframe, hupcoming, Nat.sub_self]
  simp [framesEvents]

theorem Unfolds.trans {h h' h'' : Console} {es es' : List BeamEvent} (hu : Unfolds h es h')
    (hu' : Unfolds h' es' h'') : Unfolds h (es ++ es') h'' := by
  obtain ⟨hframe, hevents⟩ := hu
  obtain ⟨hframe', hevents'⟩ := hu'
  refine ⟨Nat.le_trans hframe hframe', ?_⟩
  have hframes : h''.schedule.frame - h.schedule.frame =
      (h'.schedule.frame - h.schedule.frame) + (h''.schedule.frame - h'.schedule.frame) := by
    omega
  rw [List.append_assoc, hevents', ← List.append_assoc, hevents, List.append_assoc, hframes,
    framesEvents_add]

theorem bears_eventJournal : eventJournal.Bears Unfolds where
  aside _ _ alike := unfolds_aside alike
  trans := .trans
  time _ _ := unfolds_aside (.refl _)
  event hp _ := by
    obtain ⟨hframe, hupcoming⟩ := upcoming_passed hp.consistent
    unfold Unfolds
    rw [schedule_fire]
    exact ⟨hframe, hupcoming⟩

theorem Counts.trans {h h' h'' : Console} {costs costs' : List Int} (hc : Counts h costs h')
    (hc' : Counts h' costs' h'') : Counts h (costs ++ costs') h'' := by
  obtain ⟨hcycles, hrange⟩ := hc
  obtain ⟨hcycles', hrange'⟩ := hc'
  refine ⟨by rw [hcycles', hcycles, List.sum_append, Int.add_assoc], fun c hc => ?_⟩
  rcases mem_countsFrom_append.mp hc with hc | hc
  · exact hrange c hc
  · exact hrange' c (hcycles ▸ hc)

theorem counts_one {h h' : Console} {k : Int} (hp : h.Paced) (hp' : h'.Paced)
    (hcycles : h'.rig.cycles = h.rig.cycles + k) : Counts h [k] h' := by
  have hnonneg := hp.nonneg
  have hmax := hp.le_max
  have hnonneg' := hp'.nonneg
  have hmax' := hp'.le_max
  refine ⟨by simpa using hcycles, fun c hc => ?_⟩
  rcases List.mem_cons.mp hc with rfl | hc
  · omega
  · rw [List.mem_singleton.mp hc, ← hcycles]
    omega

/-- The costs of an event raise the count from where it is to where it will be, and the end of a
line lowers it. -/
theorem counts_event {h : Console} (hp : h.Paced) (hdue : h.Due) :
    Counts h (costs h) (fire h) := by
  have hp' := hp.paced_fire hdue
  have hcycles := cycles_fire h
  have hnonneg := hp.nonneg
  have hmax := hp'.le_max
  have hrises : ∀ {n : Int}, CostAtMost n (costs h) → Counts h (costs h) (fire h) := by
    intro n hcosts
    refine ⟨hcycles, fun c hc => ?_⟩
    have hbetween := hcosts.counts hc
    omega
  cases hevent : h.schedule.event with
  | beginFrame => exact hrises (hp.costs_beginFrame hevent)
  | runLine => exact hrises (hp.costs_runLine hevent)
  | endLine =>
      have hcosts : costs h = [-cyclesPerLine] := by rw [costs, hevent]
      rw [hcosts] at hcycles ⊢
      exact counts_one hp hp' (by simpa using hcycles)

theorem bears_costJournal : costJournal.Bears Counts where
  aside hp hcycles _ := by
    have hnonneg := hp.nonneg
    have hmax := hp.le_max
    refine ⟨by simpa using hcycles, fun c hc => ?_⟩
    rw [List.mem_singleton.mp hc]
    omega
  trans := .trans
  time hp hp' := counts_one hp hp' rfl
  event := counts_event

end Beam

/-- From power-on on, with the usual synchronisation, the events of a console come in the order of
its frames, none of them twice and none left out; the parts of the beam agree with each other, and
the count is short of the next event; and wherever the count has been, it was in range. -/
theorem console_keeps_time {settings : Settings}
    (hsync : settings.syncDelay = Settings.standard.syncDelay) (ops : List Operation) :
    let m := (Console.powerOn settings).after ops
    let costs := (Console.powerOn settings).trace Beam.costJournal ops
    (Console.powerOn settings).trace Beam.eventJournal ops <+:
        Beam.framesEvents (m.schedule.frame + 1) ∧
      (m.schedule.Consistent ∧ 0 ≤ m.rig.cycles ∧ m.rig.cycles < m.schedule.position ∧
        m.schedule.position ≤ Beam.cyclesPerLine) ∧
      m.rig.cycles = costs.sum ∧ ∀ c ∈ countsFrom 0 costs, 0 ≤ c ∧ c ≤ 2727 := by
  intro m costs
  have hstart := Console.ahead_powerOn hsync
  obtain ⟨hlast, -, hevents⟩ := Console.bears_run Beam.bears_eventJournal ops hstart
  obtain ⟨-, hcycles, hrange⟩ := Console.bears_run Beam.bears_costJournal ops hstart
  refine ⟨⟨m.schedule.upcoming, ?_⟩, ⟨hlast.consistent, hlast.nonneg, ?_, ?_⟩, ?_, hrange⟩
  · have hframe : m.schedule.frame + 1 = 1 + (m.schedule.frame - 0) := by omega
    have hfirst : Beam.powerOn.upcoming = Beam.framesEvents 1 := by decide +kernel
    rw [hevents, hframe, Beam.framesEvents_add]
    exact congrArg (· ++ _) hfirst
  · have hlt := hlast.lt
    rwa [Int.add_zero] at hlt
  · exact hlast.consistent.position_le
  · rw [hcycles]
    exact Int.zero_add _

/-- A plain console begins its first frame, sends two lines and waits for the third. -/
theorem twoLines_keep_time :
    let m := (Console.powerOn .standard).after [.write 0x420C 0xFF, .lines 2]
    let costs := (Console.powerOn .standard).trace Beam.costJournal [.write 0x420C 0xFF, .lines 2]
    (Console.powerOn .standard).trace Beam.eventJournal [.write 0x420C 0xFF, .lines 2] =
        [.beginFrame, .runLine, .endLine, .runLine, .endLine] ∧
      (Console.powerOn .standard).trace Beam.eventJournal [.write 0x420C 0xFF, .lines 2] <+:
        Beam.framesEvents (m.schedule.frame + 1) ∧
      (m.schedule.Consistent ∧ 0 ≤ m.rig.cycles ∧ m.rig.cycles < m.schedule.position ∧
        m.schedule.position ≤ Beam.cyclesPerLine) ∧
      m.rig.cycles = costs.sum ∧ ∀ c ∈ countsFrom 0 costs, 0 ≤ c ∧ c ≤ 2727 :=
  ⟨by decide +kernel, console_keeps_time rfl _⟩

/-! ### Operations come to their end -/

namespace Host

variable {β γ : Type} [Buses β]

/-- A transfer has a bounded number of bytes, and after each of them two events at most are due one
after the other. -/
theorem Ahead.settles_bytes {h : Host Beam β} (ha : h.Ahead 18) (i : ChannelId) :
    (h.transferNotes (fun e => [e]) i).length ≤ 0x10000 ∧
      ∀ byte ∈ h.transferNotes (fun e => [e]) i,
        (byte.1.spend slowAccess).Settles byte.2 (byte.1.spend slowAccess).settle ∧
          byte.2.length ≤ 2 := by
  have hprepared := ahead_prepare ha i
  have hlength := (h.rig.channel i).length_le
  unfold transferNotes
  generalize h.prepare i = prepared at hprepared ⊢
  obtain ⟨t, progress, start⟩ := prepared
  refine ⟨Nat.le_trans (length_byteNotes _ t _ progress start).1 hlength, fun byte hbyte => ?_⟩
  obtain ⟨hdone, hnotes, -⟩ := byteNotes_induction (P := fun h : Host Beam β => h.Ahead 26)
    (fun progress _ ha => ahead_byteDone ha t progress)
    (fun _ ha => (ahead_passByte ha t.id).mono (by decide)) hprepared byte hbyte
  obtain ⟨es, h', hsettles, hes, -⟩ := hdone.paced_spend.settles
  obtain ⟨hlast, hevents⟩ := hsettles.settleWithin
    (Nat.le_trans hes (show 2 ≤ settleLimit by decide))
  rw [hnotes, hevents, settle, hlast]
  exact ⟨hsettles, hes⟩

end Host

/-- From every console that operations can lead to, with the usual synchronisation, the next
operation comes to its end.  Its general transfers catch up on their events behind each of a bounded
number of bytes, with two of them at most; idling for lines and idling to the next frame reach what
they wait for with at most three events on any line. -/
theorem operations_end {settings : Settings}
    (hsync : settings.syncDelay = Settings.standard.syncDelay) (ops : List Operation) :
    let m := (Console.powerOn settings).after ops
    (∀ op : Operation, ∀ t ∈ op.transfers m,
      (t.1.transferNotes (fun e => [e]) t.2).length ≤ 0x10000 ∧
        ∀ byte ∈ t.1.transferNotes (fun e => [e]) t.2,
          (byte.1.spend slowAccess).Settles byte.2 (byte.1.spend slowAccess).settle ∧
            byte.2.length ≤ 2) ∧
      (∀ n, ∃ es, Console.Idles (fun m' => m.schedule.linesRun + n ≤ m'.schedule.linesRun) m es
          (m.runLines n) ∧
        es.length ≤ 3 * n ∧
        ∀ line, es.countP (fun e => e.schedule.linesRun == line) ≤ 3) ∧
      ∃ es, Console.Idles (fun m' => m'.schedule.frame ≠ m.schedule.frame) m es m.runFrame ∧
        es.length ≤ 3 * 262 ∧
        ∀ line, es.countP (fun e => e.schedule.linesRun == line) ≤ 3 := by
  intro m
  have ha : m.Ahead 0 :=
    (Console.bears_run Beam.bears_eventJournal ops (Console.ahead_powerOn hsync)).1
  refine ⟨fun op t ht => ?_, fun n => ?_, ?_⟩
  · exact ((Operation.bears Beam.bears_eventJournal ha op).2.2 t ht).settles_bytes t.2
  · obtain ⟨es, hidles, hlength, hline, -⟩ := Console.idles_runLines ha n
    exact ⟨es, hidles, hlength, hline⟩
  · obtain ⟨es, hidles, hlength, hline, -⟩ := Console.idles_runFrame ha
    exact ⟨es, hidles, hlength, hline⟩

/-- A write that starts three bytes on channel 0 comes to its end. -/
theorem threeBytes_end :
    let m := (Console.powerOn .standard).after [.write 0x4305 0x03, .write 0x4306 0x00]
    (((Operation.write 0x420B 0x01).transfers m).flatMap
        fun t => t.1.transferNotes (fun e => [e]) t.2).length = 3 ∧
      (∀ op : Operation, ∀ t ∈ op.transfers m,
        (t.1.transferNotes (fun e => [e]) t.2).length ≤ 0x10000 ∧
          ∀ byte ∈ t.1.transferNotes (fun e => [e]) t.2,
            (byte.1.spend slowAccess).Settles byte.2 (byte.1.spend slowAccess).settle ∧
              byte.2.length ≤ 2) ∧
      (∀ n, ∃ es, Console.Idles (fun m' => m.schedule.linesRun + n ≤ m'.schedule.linesRun) m es
          (m.runLines n) ∧
        es.length ≤ 3 * n ∧
        ∀ line, es.countP (fun e => e.schedule.linesRun == line) ≤ 3) ∧
      ∃ es, Console.Idles (fun m' => m'.schedule.frame ≠ m.schedule.frame) m es m.runFrame ∧
        es.length ≤ 3 * 262 ∧
        ∀ line, es.countP (fun e => e.schedule.linesRun == line) ≤ 3 :=
  ⟨by decide +kernel, operations_end rfl _⟩

end DmaController
