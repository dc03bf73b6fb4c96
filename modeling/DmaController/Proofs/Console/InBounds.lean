import DmaController.Proofs.Console.CheckedBoard
import DmaController.Proofs.Console.Countdown
import DmaController.Proofs.Console.Timetable
import DmaController.Proofs.Transfer.Blocks

/-! # Operations that stay in bounds

`Operation.run?` carries out an operation on a checked board, which is gone as soon as an access has
left its memory, and runs general transfers block by block, which end in `none` where their own
bounds are overrun.  From every state that is reached, rows of operations come to their end that way
and do what they do without looking (`Console.StaysInBounds`).  Lines and frames go round the bytes
of a unit one by one and have no bounds of their own; they run as they are, on the checked board.

The one quantity that grows with a setting is the count of a line.  It stays in range while the
synchronisation is the usual one (`Console.KeepsCount`), so it takes all of a console's past to have
been `Synchronised` for both. -/

namespace DmaController

/-! ### Time that passes -/

namespace Host

section

variable {β : Type} [Buses β]

/-- Idles to the next event of the beam and carries it out. -/
def takeEvent (h : Host Beam β) : Host Beam β :=
  let gap := h.schedule.position - h.rig.cycles
  Beam.fire (if 0 < gap then h.spend gap else h)

/-- Takes event after event until the beam is where it should stop, but no more than `limit`. -/
def takeEvents (stop : Beam → Bool) : Nat → Host Beam β → Host Beam β
  | 0, h => h
  | limit + 1, h => if stop h.schedule then h else takeEvents stop limit h.takeEvent

theorem takeEvents_through {γ : Type} [Buses γ] {f : β → γ} (hf : Buses.Faithful f)
    (stop : Beam → Bool) (limit : Nat) (h : Host Beam β) :
    (h.through f).takeEvents stop limit = (h.takeEvents stop limit).through f := by
  induction limit generalizing h with
  | zero => rfl
  | succ limit ih =>
      have htaken : (h.through f).takeEvent = h.takeEvent.through f := by
        unfold takeEvent
        rw [← Beam.fire_through hf]
        dsimp only
        rw [show (h.through f).schedule = h.schedule from rfl,
          show (h.through f).rig.cycles = h.rig.cycles from rfl]
        split <;> rfl
      unfold takeEvents
      rw [htaken, ih, show (h.through f).schedule = h.schedule from rfl]
      split <;> rfl

end

/-! ### Operations on a checked board -/

/-- The processor writes a byte. -/
def write? (m : Host Beam (Option Board)) (a : Address) (v : UInt8) :
    Option (Host Beam (Option Board)) :=
  if Console.isControllerAddress a then m.writeRegister? (Address.offset a) v
  else some (m.modifyRig (·.write a v))

/-- The processor reads a byte. -/
def read? (m : Host Beam (Option Board)) (a : Address) : Option UInt8 :=
  m.rig.buses.bind fun b =>
    let offset := Address.offset a
    if isSystemBank (Address.bank a) && Controller.isChannelRegister offset then
      (m.rig.controller.readRegister? offset).map (·.getD b.openBus)
    else b.look? a

end Host

/-- Carries out an operation. -/
def Operation.run? : Operation → Host Beam (Option Board) → Option (Host Beam (Option Board))
  | write a v, m => m.write? a v
  | transfer i, m => (m.runChannel? i).map Prod.snd
  | lines n, m =>
    let target := m.schedule.linesRun + n
    some (m.takeEvents (fun b => decide (target ≤ b.linesRun)) (Console.eventsPerLine * n))
  | frame, m =>
    let frame := m.schedule.frame
    some (m.takeEvents (fun b => decide (b.frame ≠ frame))
      (Console.eventsPerLine * Beam.linesPerFrame))
  | load a bytes, m => some (m.modifyRig (·.modifyBuses (·.bind (Board.load? a bytes))))
  | reset, m => some (m.modifyController (·.resetChannels))

namespace Console

/-- The console with its board checked. -/
def checked (m : Console) : Host Beam (Option Board) := m.through some

theorem idleUntil_eq_takeEvents (stop : Beam → Bool) (limit : Nat) (m : Console) :
    m.idleUntil (fun m => stop m.schedule) limit = m.takeEvents stop limit := by
  induction limit generalizing m with
  | zero => rfl
  | succ limit ih =>
      unfold idleUntil Host.takeEvents
      rw [ih]
      rfl

section

variable {m : Console} (h : m.board.InRange)

include h

/-- A console with its work address in range is that of a board that keeps it there. -/
theorem exists_ranged :
    ∃ s : Host Beam Board.Ranged, s.through Subtype.val = m ∧
      s.through (fun b => some b.1) = m.checked :=
  ⟨⟨⟨m.rig.controller, ⟨m.board, h⟩, m.rig.cycles⟩, m.schedule⟩, rfl, rfl⟩

theorem runChannel_checked (i : ChannelId) :
    m.checked.runChannel i = ((m.runChannel i).1, checked (m.runChannel i).2) := by
  obtain ⟨s, rfl, hs⟩ := exists_ranged h
  rw [← hs, Host.runChannel_through Board.checked_faithful,
    Host.runChannel_through Board.ranged_faithful]
  rfl

theorem writeRegister_checked (a : UInt16) (v : UInt8) :
    m.checked.writeRegister a v = checked (m.writeRegister a v) := by
  obtain ⟨s, rfl, hs⟩ := exists_ranged h
  rw [← hs, Host.writeRegister_through Board.checked_faithful,
    Host.writeRegister_through Board.ranged_faithful]
  rfl

theorem takeEvents_checked (stop : Beam → Bool) (limit : Nat) :
    m.checked.takeEvents stop limit = checked (m.takeEvents stop limit) := by
  obtain ⟨s, rfl, hs⟩ := exists_ranged h
  rw [← hs, Host.takeEvents_through Board.checked_faithful,
    Host.takeEvents_through Board.ranged_faithful]
  rfl

end

end Console

theorem Beam.keepsAddresses {β : Type} [Buses β] : KeepsAddresses Beam β :=
  fun e j => address_fire e j

/-- With the work address in range, an operation on the checked board does not fail, and does what
it does without looking. -/
theorem Operation.run?_checked {m : Console} (h : m.board.InRange) (op : Operation) :
    op.run? m.checked = some (op.run m).checked := by
  cases op with
  | write a v =>
      have hwritten : m.board.write? a v = some (m.board.write a v) := Board.write?_eq h a v
      show m.checked.write? a v = some (m.write a v).checked
      unfold Host.write? Console.write
      split
      · rw [Host.writeRegister?_eq Beam.keepsAddresses, Console.writeRegister_checked h]
      · exact congrArg (fun b => some (⟨⟨m.rig.controller, b, m.rig.cycles⟩, m.schedule⟩ :
          Host Beam (Option Board))) hwritten
  | transfer i =>
      show (m.checked.runChannel? i).map Prod.snd = _
      rw [Host.runChannel?_eq Beam.keepsAddresses, Console.runChannel_checked h]
      rfl
  | lines n =>
      have hidled := m.idleUntil_eq_takeEvents
        (fun b => decide (m.schedule.linesRun + n ≤ b.linesRun)) (Console.eventsPerLine * n)
      exact congrArg some
        ((Console.takeEvents_checked h _ _).trans (congrArg Console.checked hidled.symm))
  | frame =>
      have hidled := m.idleUntil_eq_takeEvents (fun b => decide (b.frame ≠ m.schedule.frame))
        (Console.eventsPerLine * Beam.linesPerFrame)
      exact congrArg some
        ((Console.takeEvents_checked h _ _).trans (congrArg Console.checked hidled.symm))
  | load a bytes =>
      have hloaded : m.board.load? a bytes = some (m.board.load a bytes) := Board.load?_eq a bytes _
      exact congrArg (fun b => some (⟨⟨m.rig.controller, b, m.rig.cycles⟩, m.schedule⟩ :
        Host Beam (Option Board))) hloaded
  | reset => rfl

/-- With the work address in range, so does a row of operations. -/
theorem Operation.runAll?_checked (ops : List Operation) {m : Console} (h : m.board.InRange) :
    ops.foldlM (fun m op => op.run? m) m.checked =
      some (m.after ops).checked := by
  induction ops generalizing m with
  | nil => rfl
  | cons op ops ih =>
      rw [List.foldlM_cons, op.run?_checked h]
      exact ih (op.board_run Board.keeps_inRange (fun _ _ _ hb => hb) h)

theorem Console.read?_checked (m : Console) (a : Address) :
    m.checked.read? a = some (m.read a) := by
  unfold Host.read? Console.read
  rw [show m.checked.rig.buses = some m.board from rfl, Option.bind_some]
  dsimp only
  split
  · rw [Controller.readRegister?_eq]
    rfl
  · exact Board.look?_eq a m.board

/-! ### Commands on a checked board -/

/-- Prints about a topic. -/
def Host.report? (m : Host Beam (Option Board)) (topic : Topic) :
    Option (String × Host Beam (Option Board)) :=
  match topic with
  | .channel i => (m.rig.controller.channel? i.val).map fun c => (Report.channel i c, m)
  | .memory a => (m.rig.buses.bind (·.look? a)).map fun v => (Report.memory a v, m)
  | _ => m.rig.buses.map fun b =>
    let told := Console.report ⟨⟨m.rig.controller, b, m.rig.cycles⟩, m.schedule⟩ topic
    (told.1, told.2.checked)

/-- Carries out a command. -/
def Host.carryOut? (m : Host Beam (Option Board)) :
    Command → Option (Except SettingError (Option String × Host Beam (Option Board)))
  | .write a v => (Operation.run? (.write a v) m).map fun m => .ok (none, m)
  | .poke a bytes => (Operation.run? (.load a bytes) m).map fun m => .ok (none, m)
  | .runLines n => (Operation.run? (.lines n) m).map fun m => .ok (none, m)
  | .runFrame => (Operation.run? .frame m).map fun m => .ok (none, m)
  | .assign name value =>
    some ((m.rig.controller.settings.assign name value).map fun settings =>
      (none, m.modifyController fun k => { k with settings := settings }))
  | .print topic => (m.report? topic).map fun told => .ok (some told.1, told.2)
  | .trace on =>
    some (.ok (none, m.modifyRig (·.modifyBuses (·.map fun b => { b with tracing := on }))))

theorem Console.report?_checked (m : Console) (topic : Topic) :
    m.checked.report? topic = some ((m.report topic).1, (m.report topic).2.checked) := by
  cases topic with
  | channel i =>
      show ((m.rig.controller.channel? i.val).map fun c => (Report.channel i c, m.checked)) = _
      rw [Controller.channel?_eq]
      rfl
  | memory a =>
      show ((m.board.look? a).map fun v => (Report.memory a v, m.checked)) = _
      rw [Board.look?_eq]
      rfl
  | _ => rfl

/-- With the work address in range, a command on the checked board does what it does without
looking. -/
theorem Console.carryOut?_checked {m : Console} (h : m.board.InRange) (c : Command) :
    m.checked.carryOut? c =
      some ((m.carryOut c).map fun done => (done.1, checked done.2)) := by
  have hran (op : Operation) :
      ((op.run? m.checked).map fun m => .ok (none, m)) =
        some ((Except.ok (none, op.run m) : Except SettingError (Option String × Console)).map
          fun done => (done.1, checked done.2)) := by
    rw [op.run?_checked h]
    rfl
  cases c with
  | write a v => exact hran (.write a v)
  | poke a bytes => exact hran (.load a bytes)
  | runLines n => exact hran (.lines n)
  | runFrame => exact hran .frame
  | assign name value =>
      unfold Host.carryOut? carryOut
      dsimp only
      rw [show m.checked.rig.controller = m.rig.controller from rfl]
      cases m.rig.controller.settings.assign name value <;> rfl
  | print topic =>
      unfold Host.carryOut? carryOut
      dsimp only
      rw [m.report?_checked topic]
      rfl
  | trace on => rfl

/-! ### The count of a line -/

namespace Beam

/-- The journal of the consoles at their events. -/
def consoleJournal : Journal Board Console := ⟨fun h => [h], fun _ => []⟩

theorem Consistent.position_nonneg {b : Beam} (h : b.Consistent) : 0 ≤ b.position := by
  have hfits := h.event_fits
  unfold EventFits at hfits
  split at hfits
  · rw [hfits.2]
    decide
  · rw [hfits.2]
    decide
  · rw [hfits]
    decide

/-- Events are carried out when they are due. -/
theorem bears_consoleJournal :
    consoleJournal.Bears fun _ events _ => ∀ e ∈ events, e.Paced ∧ e.Due where
  aside _ _ _ := List.forall_mem_nil _
  trans := fun h h' => List.forall_mem_append.mpr ⟨h, h'⟩
  time _ _ := List.forall_mem_nil _
  event hp hdue := List.forall_mem_singleton.mpr ⟨hp, hdue⟩

end Beam

namespace Console

/-- Operations, and changes of decoder, tracing and settings that keep the usual synchronisation,
have led here from power-on. -/
inductive Synchronised : Console → Prop
  | powerOn {settings : Settings} (hsync : settings.syncDelay = Settings.standard.syncDelay) :
      Synchronised (.powerOn settings)
  | run {m : Console} (op : Operation) (h : Synchronised m) : Synchronised (op.run m)
  | adjust {m : Console} {settings : Settings}
      (hsync : settings.syncDelay = Settings.standard.syncDelay) (h : Synchronised m) :
      Synchronised (m.modifyController fun k => { k with settings := settings })
  | hold {m : Console} (bytes : List UInt8) (h : Synchronised m) :
      Synchronised (m.modifyController fun k => { k with decoder := k.decoder.hold bytes })
  | trace {m : Console} (on : Bool) (h : Synchronised m) :
      Synchronised (m.modifyBoard fun b => { b with tracing := on })
  | takeTrace {m : Console} (h : Synchronised m) :
      Synchronised (m.modifyBoard fun b => b.takeTrace.2)

namespace Synchronised

variable {m : Console}

theorem reached (h : m.Synchronised) : m.Reached := by
  induction h with
  | powerOn _ => exact .powerOn _
  | run op _ ih => exact ih.run op
  | adjust _ _ ih => exact ih.adjust _
  | hold bytes _ ih => exact ih.hold bytes
  | trace on _ ih => exact ih.trace on
  | takeTrace _ ih => exact ih.takeTrace

/-- No event is due. -/
theorem ahead (h : m.Synchronised) : m.Ahead 0 := by
  induction h with
  | powerOn hsync => exact ahead_powerOn hsync
  | run op _ ih => exact (op.bears Beam.bears_eventJournal ih).1
  | adjust hsync _ ih => exact ⟨ih.consistent, ih.nonneg, ih.lt, hsync⟩
  | hold bytes _ ih => exact ih.aside rfl (.refl _) rfl
  | trace on _ ih => exact ih.aside rfl (.refl _) rfl
  | takeTrace _ ih => exact ih.aside rfl (.refl _) rfl

/-- Rows of operations lead on. -/
theorem after (ops : List Operation) (h : m.Synchronised) : (m.after ops).Synchronised := by
  induction ops generalizing m with
  | nil => exact h
  | cons op ops ih => exact ih (h.run op)

/-- So do the commands of scripts, if they keep the synchronisation. -/
theorem carryOut {m' : Console} {c : Command} {text : Option String} (h : m.Synchronised)
    (hc : m.carryOut c = .ok (text, m'))
    (hsync : m'.rig.controller.settings.syncDelay = Settings.standard.syncDelay) :
    m'.Synchronised := by
  obtain ⟨op, rfl⟩ | ⟨settings, rfl⟩ | ⟨on, rfl⟩ | rfl | rfl := carryOut_cases hc
  · exact h.run op
  · exact h.adjust hsync
  · exact h.trace on
  · exact h.takeTrace
  · exact h

end Synchronised

end Console

/-! ### States that are reached -/

namespace Console

/-- Whatever is done with the console next, its accesses stay in bounds. -/
structure StaysInBounds (m : Console) : Prop where
  /-- The work RAM port points into work RAM. -/
  workAddress : m.board.workAddress < workRamSize
  /-- Rows of operations run on the checked board, and do there what they do on their own. -/
  runs : ∀ ops : List Operation,
    ops.foldlM (fun m op => op.run? m) m.checked = some (m.after ops).checked
  /-- So do the commands of scripts. -/
  carriesOut : ∀ c : Command,
    m.checked.carryOut? c = some ((m.carryOut c).map fun done => (done.1, checked done.2))
  reads : ∀ a : Address, m.checked.read? a = some (m.read a)
  /-- The bytes for the decoder have room in it. -/
  holds : ∀ bytes : List UInt8,
    m.rig.controller.decoder.hold? bytes = some (m.rig.controller.decoder.hold bytes)
  /-- The units of line transfers have a last byte. -/
  lastByte : ∀ i : ChannelId,
    sub? (m.rig.channel i).mode.size 1 = some ((m.rig.channel i).mode.size - 1)

/-- Whatever is done with the console next, the count of its line stays in range: so do the gaps
between it and the positions of the events, and where the cycles of a line are taken off it, it has
that many. -/
structure KeepsCount (m : Console) : Prop where
  counts : ∀ ops : List Operation,
    ∀ c ∈ countsFrom m.rig.cycles (m.trace Beam.costJournal ops), 0 ≤ c ∧ c ≤ 2727
  events : ∀ ops : List Operation, ∀ e ∈ m.trace Beam.consoleJournal ops,
    0 ≤ e.schedule.position ∧ e.schedule.position ≤ Beam.cyclesPerLine ∧
      e.schedule.position ≤ e.rig.cycles ∧
      (e.schedule.event = .endLine → Beam.cyclesPerLine ≤ e.rig.cycles)

/-- From power-on, with whatever settings, no access leaves the array it is meant for. -/
theorem Reached.staysInBounds {m : Console} (hm : m.Reached) : m.StaysInBounds where
  workAddress := hm.between.inRange
  runs ops := Operation.runAll?_checked ops hm.between.inRange
  carriesOut c := carryOut?_checked hm.between.inRange c
  reads a := m.read?_checked a
  holds bytes := m.rig.controller.decoder.hold?_eq bytes
  lastByte i := sub?_of_le (m.rig.channel i).mode.size_pos

theorem Synchronised.keepsCount {m : Console} (hm : m.Synchronised) : m.KeepsCount where
  counts ops := (bears_run Beam.bears_costJournal ops hm.ahead).2.2
  events ops e he := by
    obtain ⟨hp, hdue⟩ := (bears_run Beam.bears_consoleJournal ops hm.ahead).2 e he
    refine ⟨hp.consistent.position_nonneg, hp.consistent.position_le, hdue, fun hevent => ?_⟩
    rw [show Beam.cyclesPerLine = e.schedule.position from (hp.endLine hevent).1.symm]
    exact hdue

end Console

/-- From power-on, with the usual synchronisation and whatever has been done since, no access leaves
the array it is meant for, and no difference leaves its range: with all bounds looked at, operations
and commands come to their end, and to the same end as without.  So it is again behind a command of
a script, if it keeps the synchronisation, and no access leaves its array in any case. -/
theorem synchronised_in_bounds {m : Console} (hm : m.Synchronised) :
    m.StaysInBounds ∧ m.KeepsCount ∧
      ∀ (c : Command) (text : Option String) (m' : Console), m.carryOut c = .ok (text, m') →
        m'.StaysInBounds ∧
          (m'.rig.controller.settings.syncDelay = Settings.standard.syncDelay →
            m'.KeepsCount) := by
  refine ⟨hm.reached.staysInBounds, hm.keepsCount, fun c text m' hc => ?_⟩
  exact ⟨(hm.reached.carryOut hc).staysInBounds, fun hsync => (hm.carryOut hc hsync).keepsCount⟩

/-- Four bytes of read-only memory, on both sides of the end of a block, are to go to the last place
of work RAM and round its end. -/
def roundBlockEnd : List Operation :=
  [.load 0xC08FFE [0x11, 0x22, 0x33, 0x44],
    .write 0x2181 0xFF, .write 0x2182 0xFF, .write 0x2183 0x01,
    .write 0x4300 0x02, .write 0x4301 0x80, .write 0x4302 0xFE, .write 0x4303 0x8F,
    .write 0x4304 0xC0, .write 0x4305 0x04, .write 0x4306 0x00]

/-- With all bounds looked at, they arrive. -/
theorem roundBlockEnd_in_bounds :
    let m := (Console.powerOn .standard).after roundBlockEnd
    m.board.workAddress = 0x1FFFF ∧
      (∃ m' : Console, Operation.run? (.write 0x420B 0x01) m.checked = some m'.checked ∧
        m'.board.workAddress = 3 ∧ m'.board.memory.get 0x7FFFFF = 0x11 ∧
        m'.board.memory.get 0x7E0002 = 0x44) ∧
      m.KeepsCount := by
  intro m
  have hm : m.Synchronised := (Console.Synchronised.powerOn rfl).after roundBlockEnd
  obtain ⟨hin, hcount, -⟩ := synchronised_in_bounds hm
  have hran := hin.runs [.write 0x420B 0x01]
  rw [List.foldlM_cons] at hran
  refine ⟨by decide +kernel, ⟨m.after [.write 0x420B 0x01], ?_, ?_, ?_, ?_⟩, hcount⟩
  · simpa only [List.foldlM_nil, bind_pure] using hran
  · decide +kernel
  · decide +kernel
  · decide +kernel

end DmaController
