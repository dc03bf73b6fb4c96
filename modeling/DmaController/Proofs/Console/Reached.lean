import DmaController.Proofs.Console.Ended
import DmaController.Proofs.Transfer.Poised
import DmaController.Script.Run

/-! # States between operations

A console is `Reached` if operations lead to it from power-on, with settings, decoder and tracing
changed in between as anyone likes; the commands of scripts lead to no others
(`Console.Reached.carryOut`).

Two kinds of things are true of all such states.  Nothing is in progress, as every transfer, line
and frame puts the record of activity back (`Rig.Free`), and the channels that are active are those
enabled and not ended.  And what all accesses keep of the board is true of it still: they are the
steps of all work on the buses (`Rig.Works.buses`), so that what they keep is kept by whole
operations (`Operation.board_run`), as is the range of the work address. -/

namespace DmaController

/-! ### What accesses keep of the buses -/

/-- What is true of the buses stays so with every access, and whatever they are told of work RAM. -/
structure Buses.Keeps {β : Type} [Buses β] (P : β → Prop) : Prop where
  step : ∀ {b b' : β}, Buses.Step b b' → P b → P b'
  say : ∀ (taken : Bool) {b : β}, P b → P (Buses.setWorkRamTaken taken b)

section

variable {β : Type} [Buses β] {P : β → Prop} (hP : Buses.Keeps P)

include hP

theorem Rig.Works.buses {r s : Rig β} (h : r.Works s) (hr : P r.buses) : P s.buses := by
  induction h with
  | start => exact hr
  | step _ haccess ih => exact hP.step haccess ih
  | record _ _ _ ih => exact ih
  | say _ taken ih => exact hP.say taken ih
  | spend _ _ ih => exact ih

namespace Host

variable {κ : Type} [Schedule κ β] {h : Host κ β}
  (hfire : ∀ e : Host κ β, P e.rig.buses → P (Schedule.fire e).rig.buses)

omit [Schedule κ β] in
theorem buses_prepare (hh : P h.rig.buses) (i : ChannelId) : P (h.prepare i).2.2.rig.buses := by
  have hbegun : ∀ (t : Transfer) (decoded : Bool) (r : Rig β), P r.buses →
      P (t.begin decoded r).2.buses := by
    intro t decoded r hr
    unfold Transfer.begin
    split
    · unfold Transfer.beginCollecting
      dsimp only
      split
      · exact hr
      · exact hP.say _ hr
    · unfold Transfer.beginSending
      split
      · exact hP.say false hr
      · exact (t.works_openStretch _ (t.firstStretch t.channel.address) r).buses hP hr
  unfold prepare
  dsimp only
  split
  · exact hh
  · obtain ⟨d, hready⟩ := (h.noteStart i).takeDecoderReady_snd
    rw [hready]
    exact hbegun _ _ _ hh

include hfire

theorem buses_runChannel (hh : P h.rig.buses) (i : ChannelId) :
    P (h.runChannel i).2.rig.buses := by
  have hpass : ∀ e : Host κ β, P e.rig.buses → P (e.passByte (h.prepare i).1.id).2.rig.buses :=
    fun e he => settleWithin_induction (P := fun e : Host κ β => P e.rig.buses) hfire settleLimit
      (h := e.spend slowAccess) he
  have hmoved : P (moveBytes (h.prepare i).1 (h.rig.channel i).length (h.prepare i).2.1
      (h.prepare i).2.2).2.rig.buses :=
    moveBytes_induction (P := fun e : Host κ β => P e.rig.buses)
      (fun progress e he => ((h.prepare i).1.works_moveByte progress e.rig).buses hP he) hpass
      (h.rig.channel i).length (buses_prepare hP hh i)
  rw [runChannel_eq]
  show P (conclude _ _ _).rig.buses
  rw [buses_conclude]
  exact hP.say false hmoved

theorem buses_startChannels (hh : P h.rig.buses) (m : ChannelMask) :
    P (h.startChannels m).rig.buses :=
  startChannels_induction (P := fun e : Host κ β => P e.rig.buses)
    (fun i he => buses_runChannel hP hfire he i) m hh hh

end Host

end

/-! ### What accesses keep of the board -/

section

variable {P : Board → Prop} (hP : Buses.Keeps P)

include hP

theorem Beam.board_fire {h : Console} (hh : P h.board) : P (fire h).rig.buses :=
  fire_induction (P := fun r => P r.buses) hh (h.rig.works_beginFrame.buses hP hh)
    ((h.rig.works_runLine _).buses hP hh) fun _ => hh

namespace Console

theorem board_idleUntil (stop : Console → Bool) (limit : Nat) {m : Console} (hm : P m.board) :
    P (m.idleUntil stop limit).board :=
  idleUntil_induction (P := fun r => P r.buses) (fun _ h => h) (Beam.board_fire hP) stop limit hm

theorem board_write {m : Console} (hm : P m.board) (a : Address) (v : UInt8) :
    P (m.write a v).board := by
  rcases m.write_cases a v with h | h | ⟨-, h⟩ | h | h <;> rw [h]
  case inl => exact Host.buses_startChannels hP (fun e he => Beam.board_fire hP he) hm ⟨v⟩
  case inr.inr.inr.inr => exact hP.step (.write a v m.board) hm
  all_goals exact hm

end Console

/-- What all accesses and the filling of memory keep of the board, operations keep. -/
theorem Operation.board_run (hload : ∀ a bytes b, P b → P (Board.load b a bytes)) (op : Operation)
    {m : Console} (hm : P m.board) : P (op.run m).board := by
  cases op with
  | write a v => exact Console.board_write hP hm a v
  | transfer i => exact Host.buses_runChannel hP (fun e he => Beam.board_fire hP he) hm i
  | lines n => exact Console.board_idleUntil hP _ _ hm
  | frame => exact Console.board_idleUntil hP _ _ hm
  | load a bytes => exact hload a bytes m.board hm
  | reset => exact hm

end

/-! ### The range of the work address -/

namespace Board

/-- The work address points into work RAM. -/
def InRange (b : Board) : Prop := b.workAddress < workRamSize

theorem inRange_writePort {b : Board} (h : b.InRange) (a : UInt16) (v : UInt8) :
    (b.writePort a v).InRange := by
  have hv := v.toNat_lt
  unfold InRange workRamSize at h
  unfold writePort
  dsimp only
  split
  · split
    · exact h
    · exact Nat.mod_lt _ (by decide)
  split
  · show b.workAddress / 0x100 * 0x100 + v.toNat < 0x20000
    omega
  split
  · show b.workAddress / 0x10000 * 0x10000 + v.toNat * 0x100 + b.workAddress % 0x100 < 0x20000
    omega
  split
  · show v.toNat % 2 * 0x10000 + b.workAddress % 0x10000 < 0x20000
    omega
  · exact h

theorem inRange_writeRegister {b : Board} (h : b.InRange) (a : UInt16) (v : UInt8) :
    (b.writeRegister a v).InRange := by
  unfold writeRegister
  dsimp only
  split
  · exact inRange_writePort (b := { b with trace := (a, v) :: b.trace }) h a v
  · exact inRange_writePort h a v

theorem inRange_readRegister {b : Board} (h : b.InRange) (a : UInt16) :
    (b.readRegister a).2.InRange := by
  unfold readRegister
  split
  · split
    · exact h
    · exact Nat.mod_lt _ (by decide)
  split
  · exact h
  · exact h

theorem inRange_read {b : Board} (h : b.InRange) (a : Address) : (b.read a).2.InRange := by
  unfold read
  cases Region.of a with
  | registers r => exact inRange_readRegister h r
  | _ => exact h

theorem inRange_write {b : Board} (h : b.InRange) (a : Address) (v : UInt8) :
    (b.write a v).InRange := by
  unfold write
  cases Region.of a with
  | registers r => exact inRange_writeRegister h r v
  | _ => exact h

/-- Whatever is done on the buses, the work address stays in range. -/
theorem keeps_inRange : Buses.Keeps InRange where
  step haccess h := by
    cases haccess with
    | read a => exact inRange_read h a
    | readWord a => exact inRange_read (inRange_read h _) _
    | write a v => exact inRange_write h a v
    | readRegister a => exact inRange_readRegister h a
    | writeRegister a v => exact inRange_writeRegister h a v
    | writeSprite v => exact inRange_writeRegister h _ v
    | writeVideo high remapped v => exact inRange_writeRegister h _ v
    | writeColour v => exact inRange_writeRegister h _ v
    | writeWorkRam v => exact inRange_writeRegister h _ v
    | _ => exact h
  say _ _ h := h

end Board

/-! ### Nothing in progress -/

/-- No transfer is in progress, and no word is left for one. -/
structure Rig.Free {β : Type} (r : Rig β) : Prop extends r.Resting where
  busy : r.controller.activity.busy = false

theorem Rig.free_runLine {β : Type} [Buses β] {r : Rig β} (h : r.Free) (m : ChannelMask) :
    (r.runLine m).2.Free := by
  refine ⟨resting_runLine h.toResting m, ?_⟩
  rw [activity_runLine]
  exact h.inTransfer

theorem Rig.free_beginFrame {β : Type} [Buses β] {r : Rig β} (h : r.Free) : r.beginFrame.Free := by
  refine ⟨resting_beginFrame h.toResting, ?_⟩
  rw [activity_beginFrame]
  exact h.inTransfer

theorem Host.free_runChannel {κ β : Type} [Buses β] [Schedule κ β] (h : Host κ β)
    (i : ChannelId) : (h.runChannel i).2.rig.Free := by
  refine ⟨h.resting_runChannel i, ?_⟩
  rw [runChannel_eq]
  show (conclude _ _ _).rig.controller.activity.busy = false
  rw [controller_conclude]

theorem Beam.free_fire {h : Console} (hf : h.rig.Free) : (fire h).rig.Free :=
  fire_induction (P := Rig.Free) hf (Rig.free_beginFrame hf) (Rig.free_runLine hf _)
    fun _ => ⟨⟨hf.inTransfer, hf.ranInside⟩, hf.busy⟩

namespace Console

variable {m : Console}

theorem free_idleUntil (stop : Console → Bool) (limit : Nat) (hf : m.rig.Free) :
    (m.idleUntil stop limit).rig.Free :=
  idleUntil_induction (P := Rig.Free) (fun _ h => ⟨⟨h.inTransfer, h.ranInside⟩, h.busy⟩)
    Beam.free_fire stop limit hf

theorem free_startChannels (hf : m.rig.Free) (mask : ChannelMask) :
    (m.startChannels mask).rig.Free :=
  Host.startChannels_induction (P := fun e : Console => e.rig.Free)
    (fun {e} i _ => e.free_runChannel i) mask hf ⟨⟨hf.inTransfer, hf.ranInside⟩, hf.busy⟩

theorem free_write (hf : m.rig.Free) (a : Address) (v : UInt8) : (m.write a v).rig.Free := by
  -- Only general transfers change the record of activity, and each leaves it free.
  have hrecord : ∀ {k : Controller}, k.activity = m.rig.controller.activity →
      Rig.Free { m.rig with controller := k } := by
    intro k hk
    exact ⟨⟨hk ▸ hf.inTransfer, hk ▸ hf.ranInside⟩, hk ▸ hf.busy⟩
  rcases m.write_cases a v with h | h | ⟨-, h⟩ | h | h <;> rw [h]
  · exact free_startChannels hf ⟨v⟩
  · refine hrecord ?_
    show (m.rig.controller.enable ⟨v⟩).activity = _
    unfold Controller.enable
    split <;> rfl
  · exact hrecord rfl
  · refine hrecord ?_
    show (m.rig.controller.writeReady v).activity = _
    unfold Controller.writeReady
    split <;> rfl
  · exact ⟨⟨hf.inTransfer, hf.ranInside⟩, hf.busy⟩

end Console

theorem Operation.free_run (op : Operation) {m : Console} (hf : m.rig.Free) :
    (op.run m).rig.Free := by
  cases op with
  | write a v => exact Console.free_write hf a v
  | transfer i => exact m.free_runChannel i
  | lines n => exact Console.free_idleUntil _ _ hf
  | frame => exact Console.free_idleUntil _ _ hf
  | load a bytes => exact ⟨⟨hf.inTransfer, hf.ranInside⟩, hf.busy⟩
  | reset => exact ⟨⟨hf.inTransfer, hf.ranInside⟩, hf.busy⟩

/-! ### States that are reached -/

namespace Console

/-- A command that can be carried out runs an operation, changes settings or tracing, takes what was
traced, or leaves the console as it is. -/
theorem carryOut_cases {m m' : Console} {c : Command} {text : Option String}
    (hc : m.carryOut c = .ok (text, m')) :
    (∃ op : Operation, m' = op.run m) ∨
      (∃ settings, m' = m.modifyController fun k => { k with settings := settings }) ∨
      (∃ on, m' = m.modifyBoard fun b => { b with tracing := on }) ∨
      m' = (m.modifyBoard fun b => b.takeTrace.2) ∨ m' = m := by
  cases c with
  | write a v => cases hc; exact .inl ⟨.write a v, rfl⟩
  | poke a bytes => cases hc; exact .inl ⟨.load a bytes, rfl⟩
  | runLines n => cases hc; exact .inl ⟨.lines n, rfl⟩
  | runFrame => cases hc; exact .inl ⟨.frame, rfl⟩
  | trace on => cases hc; exact .inr (.inr (.inl ⟨on, rfl⟩))
  | assign name value =>
      unfold carryOut at hc
      dsimp only at hc
      cases hassigned : m.rig.controller.settings.assign name value with
      | error e =>
          rw [hassigned] at hc
          cases hc
      | ok settings =>
          rw [hassigned] at hc
          cases hc
          exact .inr (.inl ⟨settings, rfl⟩)
  | print topic =>
      cases topic with
      | trace => cases hc; exact .inr (.inr (.inr (.inl rfl)))
      | _ => cases hc; exact .inr (.inr (.inr (.inr rfl)))

/-- Operations and changes of settings, decoder and tracing have led here from power-on. -/
inductive Reached : Console → Prop
  | powerOn (settings : Settings) : Reached (.powerOn settings)
  | run {m : Console} (op : Operation) (h : Reached m) : Reached (op.run m)
  | adjust {m : Console} (settings : Settings) (h : Reached m) :
      Reached (m.modifyController fun k => { k with settings := settings })
  | hold {m : Console} (bytes : List UInt8) (h : Reached m) :
      Reached (m.modifyController fun k => { k with decoder := k.decoder.hold bytes })
  | trace {m : Console} (on : Bool) (h : Reached m) :
      Reached (m.modifyBoard fun b => { b with tracing := on })
  | takeTrace {m : Console} (h : Reached m) : Reached (m.modifyBoard fun b => b.takeTrace.2)

namespace Reached

variable {m : Console}

/-- Rows of operations lead on. -/
theorem runAll (ops : List Operation) (h : Reached m) :
    Reached (ops.foldl (fun m op => op.run m) m) := by
  induction ops generalizing m with
  | nil => exact h
  | cons op ops ih => exact ih (h.run op)

/-- So do the commands of scripts. -/
theorem carryOut {m' : Console} {c : Command} {text : Option String} (h : Reached m)
    (hc : m.carryOut c = .ok (text, m')) : Reached m' := by
  obtain ⟨op, rfl⟩ | ⟨settings, rfl⟩ | ⟨on, rfl⟩ | rfl | rfl := carryOut_cases hc
  · exact h.run op
  · exact h.adjust settings
  · exact h.trace on
  · exact h.takeTrace
  · exact h

end Reached

/-- Nothing is in progress, the active channels are those enabled and not ended, and the work
address is in range. -/
structure Between (m : Console) : Prop where
  free : m.rig.Free
  consistent : m.rig.Consistent
  inRange : m.board.InRange

/-- So it is in all states that are reached. -/
theorem Reached.between {m : Console} (h : m.Reached) : m.Between := by
  induction h with
  | powerOn settings =>
      exact ⟨⟨⟨rfl, rfl⟩, rfl⟩, consistent_powerOn rfl, Nat.zero_lt_succ _⟩
  | @run m op _ ih =>
      have hpath : Rig.Path Rig.AsksActive m.rig (op.path m) (op.run m).rig :=
        op.along_run (Rig.Path.along _) m
      exact ⟨op.free_run ih.free, (hpath.consistent ih.consistent).2,
        op.board_run Board.keeps_inRange (fun _ _ _ hb => hb) ih.inRange⟩
  | adjust settings _ ih =>
      exact ⟨⟨⟨ih.free.inTransfer, ih.free.ranInside⟩, ih.free.busy⟩, ih.consistent, ih.inRange⟩
  | hold bytes _ ih =>
      exact ⟨⟨⟨ih.free.inTransfer, ih.free.ranInside⟩, ih.free.busy⟩, ih.consistent, ih.inRange⟩
  | trace on _ ih =>
      exact ⟨⟨⟨ih.free.inTransfer, ih.free.ranInside⟩, ih.free.busy⟩, ih.consistent, ih.inRange⟩
  | takeTrace _ ih =>
      exact ⟨⟨⟨ih.free.inTransfer, ih.free.ranInside⟩, ih.free.busy⟩, ih.consistent, ih.inRange⟩

end Console

end DmaController
