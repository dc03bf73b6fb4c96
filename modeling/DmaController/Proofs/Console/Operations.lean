import DmaController.Console.Basic
import DmaController.Proofs.Console.Freshness

/-! # Operations on a console

A console is worked on from outside by `Operation`s: accesses of the processor, general transfers,
lines and frames that pass by, and memory that is filled.  `run` carries out a list of them.

Two things are said of a run.  `units` are the turns in which channels come to send, each with the
rig as it is then.  `stops` are the rigs at which nothing is half done as far as channels go:
between operations, before each general transfer, and behind each byte of one.

Some operations make a fresh channel stale: a write to one of its registers that makes them lead
elsewhere, and a general transfer that counts down an indirect channel with direct access
(`Operation.Spares`).  No others do, so a channel stays fresh throughout a run if and only if all
operations spare it, and then its units send the bytes at the addresses its registers give
(`fresh_iff_spares`).  Processor accesses do not drop the direct access of the channel they write
to, and so they can make it send bytes from somewhere else (`stale_unit`). -/

namespace DmaController

/-- Work on a console from outside. -/
inductive Operation where
  /-- The processor writes a byte. -/
  | write (a : Address) (v : UInt8)
  /-- A general transfer runs that the processor has not asked for. -/
  | transfer (i : ChannelId)
  /-- Lines pass by. -/
  | lines (n : Nat)
  /-- The rest of a frame passes by. -/
  | frame
  /-- Memory is filled, read-only memory included. -/
  | load (a : Address) (bytes : List UInt8)
  /-- The channels are put into their power-on state. -/
  | reset

namespace Console

/-! ### What an operation runs -/

/-- The general transfers that a set of channels starts, each with the console at its start. -/
def started (m : Console) (mask : ChannelMask) : List (Console × ChannelId) :=
  if m.rig.controller.activity.busy || mask == ∅ then []
  else
    Rig.turnsOf (fun m i => (m.runChannel i).2) mask.toList
      (m.spend m.rig.controller.settings.syncDelay)

/-- The console when its next event is to come. -/
def atEvent (m : Console) : Console :=
  let gap := m.schedule.position - m.rig.cycles
  if 0 < gap then m.spend gap else m

theorem stepEvent_eq (m : Console) : m.stepEvent = Beam.fire m.atEvent := rfl

/-- The turns of the channels while the console idles. -/
def idleTurns (stop : Console → Bool) : Nat → Console → List (Rig Board × ChannelId)
  | 0, _ => []
  | limit + 1, m =>
      if stop m then [] else Beam.turns m.atEvent ++ idleTurns stop limit m.stepEvent

end Console

namespace Operation

/-- Carries out an operation. -/
def run : Operation → Console → Console
  | write a v, m => m.write a v
  | transfer i, m => (m.runChannel i).2
  | lines n, m => m.runLines n
  | frame, m => m.runFrame
  | load a bytes, m => m.modifyBoard (·.load a bytes)
  | reset, m => m.resetChannels

/-- The general transfers of an operation, each with the console at its start. -/
def transfers : Operation → Console → List (Console × ChannelId)
  | write a v, m =>
      if Console.isControllerAddress a ∧ Address.offset a = 0x420B then m.started ⟨v⟩ else []
  | transfer i, m => [(m, i)]
  | _, _ => []

/-- The turns of the channels in an operation that lets time pass. -/
def idleTurns : Operation → Console → List (Rig Board × ChannelId)
  | lines n, m =>
      let target := m.schedule.linesRun + n
      m.idleTurns (fun m => decide (target ≤ m.schedule.linesRun)) (Console.eventsPerLine * n)
  | frame, m =>
      let frame := m.schedule.frame
      m.idleTurns (fun m => decide (m.schedule.frame ≠ frame))
        (Console.eventsPerLine * Beam.linesPerFrame)
  | _, _ => []

/-- The turns in which channels come to send in an operation. -/
def units (op : Operation) (m : Console) : List (Rig Board × ChannelId) :=
  op.idleTurns m ++
    (op.transfers m).flatMap fun t => (t.1.transferNotes Beam.turns t.2).flatMap Prod.snd

/-- The rigs inside an operation at the start of a general transfer or behind one of its bytes. -/
def stops (op : Operation) (m : Console) : List (Rig Board) :=
  (op.transfers m).flatMap fun t =>
    t.1.rig :: (t.1.transferNotes Beam.turns t.2).map fun byte => byte.1.rig

/-- A write of the processor to the registers of channel `i` takes no direct access away from where
they lead. -/
def KeepsPlace (i : ChannelId) : Operation → Console → Prop
  | write a v, m =>
      Console.isControllerAddress a → Controller.isChannelRegister (Address.offset a) →
        Controller.channelOf (Address.offset a) = i →
          (m.rig.channel i).cache = none ∨
            ((m.rig.channel i).writeRegister (Address.offset a).toNat v).pointer =
              (m.rig.channel i).pointer
  | _, _ => True

/-- Neither a write nor a general transfer of the operation makes channel `i` stale. -/
structure Spares (i : ChannelId) (op : Operation) (m : Console) : Prop where
  place : op.KeepsPlace i m
  count : ∀ t ∈ op.transfers m, t.2 = i → t.1.rig.Spared i

end Operation

/-! ### What is kept -/

/-- What general transfers keep, a row of them keeps. -/
theorem Host.startChannels_induction {κ β : Type} [Buses β] [Schedule κ β] {P : Host κ β → Prop}
    (hrun : ∀ {e : Host κ β} (i : ChannelId), P e → P (e.runChannel i).2) (m : ChannelMask)
    {h : Host κ β} (hh : P h) (hspent : P (h.spend h.rig.controller.settings.syncDelay)) :
    P (h.startChannels m) := by
  unfold startChannels
  split
  · exact hh
  · exact Rig.foldl_induction m.toList (fun e i _ he => hrun i he) hspent

namespace Console

/-- What time and the events of the beam keep, idling keeps. -/
theorem idleUntil_induction {P : Rig Board → Prop}
    (hspend : ∀ {r : Rig Board} (time : Int), P r → P (r.spend time))
    (hfire : ∀ {h : Console}, P h.rig → P (Beam.fire h).rig) (stop : Console → Bool) (limit : Nat)
    {m : Console} (hm : P m.rig) : P (m.idleUntil stop limit).rig := by
  induction limit generalizing m with
  | zero => exact hm
  | succ limit ih =>
      have hwaited : P m.atEvent.rig := by
        unfold atEvent
        dsimp only
        split
        · exact hspend _ hm
        · exact hm
      unfold idleUntil
      split
      · exact hm
      · exact ih (hfire hwaited)

/-! ### Time that passes -/

theorem fresh_atEvent {m : Console} {i : ChannelId} (hf : m.rig.Fresh i) :
    m.atEvent.rig.Fresh i := by
  unfold atEvent
  dsimp only
  split
  · exact ⟨hf.channel, hf.enabled⟩
  · exact hf

theorem fresh_stepEvent {m : Console} {i : ChannelId} (hf : m.rig.Fresh i) :
    m.stepEvent.rig.Fresh i := by
  rw [stepEvent_eq]
  exact Beam.fresh_fire (fresh_atEvent hf)

theorem fresh_idleUntil (stop : Console → Bool) {i : ChannelId} (limit : Nat) {m : Console}
    (hf : m.rig.Fresh i) :
    (m.idleUntil stop limit).rig.Fresh i ∧
      ∀ turn ∈ m.idleTurns stop limit, turn.2 = i → (turn.1.channel i).Fresh := by
  induction limit generalizing m with
  | zero =>
      refine ⟨hf, ?_⟩
      intro turn ht
      cases ht
  | succ limit ih =>
      unfold idleUntil idleTurns
      split
      · refine ⟨hf, ?_⟩
        intro turn ht
        cases ht
      · obtain ⟨hlast, hturns⟩ := ih (fresh_stepEvent hf)
        refine ⟨hlast, ?_⟩
        intro turn ht
        rcases List.mem_append.mp ht with ht | ht
        · exact Beam.fresh_turns (fresh_atEvent hf) turn ht
        · exact hturns turn ht

/-! ### Accesses of the processor -/

theorem fresh_startChannels {m : Console} {i : ChannelId} {mask : ChannelMask}
    (hf : m.rig.Fresh i) (hs : ∀ t ∈ m.started mask, t.2 = i → t.1.rig.Spared i) :
    (m.startChannels mask).rig.Fresh i ∧ ∀ t ∈ m.started mask, t.1.rig.Fresh i := by
  unfold Host.startChannels
  unfold started at hs ⊢
  split
  · refine ⟨hf, ?_⟩
    intro t ht
    cases ht
  · rename_i hidle
    rw [if_neg hidle] at hs
    exact Rig.foldl_turnsOf (P := fun m : Console => m.rig.Fresh i)
      (Q := fun t => t.2 = i → t.1.rig.Spared i)
      (fun _ _ hf hs => (Host.fresh_runChannel hf hs).1) mask.toList
      (s := m.spend m.rig.controller.settings.syncDelay) ⟨hf.channel, hf.enabled⟩ hs

/-- The processor starts transfers. -/
theorem write_of_start {m : Console} {a : Address} {v : UInt8}
    (ha : isControllerAddress a = true ∧ Address.offset a = 0x420B) :
    m.write a v = m.startChannels ⟨v⟩ := by
  rw [write, if_pos ha.1, Host.writeRegister, if_pos ha.2]

/-- The processor writes a register of a channel. -/
theorem write_of_register {m : Console} {a : Address} {v : UInt8}
    (ha : isControllerAddress a = true)
    (hregister : Controller.isChannelRegister (Address.offset a) = true) :
    m.write a v = m.modifyController (·.writeChannelRegister (Address.offset a) v) := by
  have hne : ∀ b, Controller.isChannelRegister b = false → Address.offset a ≠ b := by
    intro b hb h
    rw [h, hb] at hregister
    cases hregister
  rw [write, if_pos ha, Host.writeRegister, if_neg (hne 0x420B (by decide)),
    if_neg (hne 0x420C (by decide)), if_pos hregister]

theorem rig_write {m : Console} {a : Address} {v : UInt8} (ha : isControllerAddress a = true)
    (hregister : Controller.isChannelRegister (Address.offset a) = true) :
    (m.write a v).rig =
      m.rig.setChannel (Controller.channelOf (Address.offset a))
        ((m.rig.channel (Controller.channelOf (Address.offset a))).writeRegister
          (Address.offset a).toNat v) := by
  rw [write_of_register ha hregister]
  rfl

/-- What a write of the processor comes to: transfers are started or channels enabled, a register of
a channel or of the decoder is written, or the board is. -/
theorem write_cases (m : Console) (a : Address) (v : UInt8) :
    m.write a v = m.startChannels ⟨v⟩ ∨
      m.write a v = m.modifyController (·.enable ⟨v⟩) ∨
      Controller.isChannelRegister (Address.offset a) = true ∧
        m.write a v = m.modifyController (·.writeChannelRegister (Address.offset a) v) ∨
      m.write a v = m.modifyController (·.writeReady v) ∨
      m.write a v = m.modifyRig (·.write a v) := by
  unfold write
  split
  · rename_i ha
    unfold Host.writeRegister
    split
    · exact .inl rfl
    split
    · exact .inr (.inl rfl)
    split
    · rename_i hregister
      exact .inr (.inr (.inl ⟨hregister, rfl⟩))
    split
    · exact .inr (.inr (.inr (.inl rfl)))
    · simp_all [isControllerAddress]
  · exact .inr (.inr (.inr (.inr rfl)))

/-- The processor enables channels for line transfers. -/
theorem fresh_enable {m : Console} {i : ChannelId} (hf : m.rig.Fresh i) (mask : ChannelMask) :
    (m.modifyController (·.enable mask)).rig.Fresh i := by
  obtain ⟨h, henabled⟩ := hf
  show Rig.Fresh { m.rig with controller := m.rig.controller.enable mask } i
  unfold Controller.enable
  split
  · exact ⟨h, henabled⟩
  · refine ⟨h, ?_⟩
    intro j hj
    exact (ChannelMask.mem_sdiff.mp hj).1

end Console

/-! ### One operation -/

namespace Operation

variable {i : ChannelId} {m : Console}

theorem fresh_write {a : Address} {v : UInt8} (hf : m.rig.Fresh i)
    (hs : (write a v).Spares i m) : (m.write a v).rig.Fresh i := by
  by_cases ha : Console.isControllerAddress a = true
  · by_cases hregister : Controller.isChannelRegister (Address.offset a) = true
    · rw [Console.rig_write ha hregister]
      refine ⟨?_, hf.enabled⟩
      rw [Rig.channel_setChannel]
      split
      · rename_i hi
        rw [hi]
        exact (Channel.fresh_iff_of_cache_eq hf.channel (Channel.cache_writeRegister _ _ _)).mpr
          (hs.place ha hregister hi)
      · exact hf.channel
    · rw [Console.write, if_pos ha, Host.writeRegister, if_neg hregister]
      by_cases hstart : Address.offset a = 0x420B
      · have hcount := hs.count
        rw [transfers, if_pos ⟨ha, hstart⟩] at hcount
        rw [if_pos hstart]
        exact (Console.fresh_startChannels hf hcount).1
      rw [if_neg hstart]
      split
      · exact Console.fresh_enable hf ⟨v⟩
      split
      · -- The ready register belongs to the decoder.
        show Rig.Fresh { m.rig with controller := m.rig.controller.writeReady v } i
        unfold Controller.writeReady
        split <;> exact ⟨hf.channel, hf.enabled⟩
      · exact hf
  · rw [Console.write, if_neg ha]
    exact ⟨hf.channel, hf.enabled⟩

theorem fresh_reset (hf : m.rig.Fresh i) : m.resetChannels.rig.Fresh i := by
  refine ⟨?_, hf.enabled⟩
  show (m.rig.controller.resetChannels.channel i).Fresh
  rw [Controller.channel_resetChannels]
  exact Channel.fresh_of_none rfl

/-- An operation that spares a fresh channel leaves it fresh. -/
theorem fresh_run {op : Operation} (hf : m.rig.Fresh i) (hs : op.Spares i m) :
    (op.run m).rig.Fresh i := by
  cases op with
  | write a v => exact fresh_write hf hs
  | transfer n => exact (Host.fresh_runChannel hf (hs.count (m, n) List.mem_cons_self)).1
  | lines n => exact (Console.fresh_idleUntil _ _ hf).1
  | frame => exact (Console.fresh_idleUntil _ _ hf).1
  | load a bytes => exact ⟨hf.channel, hf.enabled⟩
  | reset => exact fresh_reset hf

/-- So all its general transfers find the channel fresh. -/
theorem fresh_transfers {op : Operation} (hf : m.rig.Fresh i) (hs : op.Spares i m) :
    ∀ t ∈ op.transfers m, t.1.rig.Fresh i := by
  have hcount := hs.count
  cases op with
  | write a v =>
      rw [transfers] at hcount ⊢
      by_cases hstart : Console.isControllerAddress a = true ∧ Address.offset a = 0x420B
      · rw [if_pos hstart] at hcount ⊢
        exact (Console.fresh_startChannels hf hcount).2
      · rw [if_neg hstart]
        intro t ht
        cases ht
  | transfer n =>
      intro t ht
      rw [List.mem_singleton.mp ht]
      exact hf
  | _ =>
      intro t ht
      cases ht

theorem fresh_idleTurns (op : Operation) (hf : m.rig.Fresh i) :
    ∀ turn ∈ op.idleTurns m, turn.2 = i → (turn.1.channel i).Fresh := by
  cases op with
  | lines n => exact (Console.fresh_idleUntil _ _ hf).2
  | frame => exact (Console.fresh_idleUntil _ _ hf).2
  | _ =>
      intro turn ht
      cases ht

/-- Behind all bytes of its general transfers the channel is fresh, and at all its turns. -/
theorem fresh_bytes {op : Operation} (hf : m.rig.Fresh i) (hs : op.Spares i m)
    {t : Console × ChannelId} (ht : t ∈ op.transfers m) :
    ∀ byte ∈ t.1.transferNotes Beam.turns t.2, Host.FreshByte i byte :=
  (Host.fresh_runChannel (fresh_transfers hf hs t ht) (hs.count t ht)).2

theorem fresh_units {op : Operation} (hf : m.rig.Fresh i) (hs : op.Spares i m) :
    ∀ turn ∈ op.units m, turn.2 = i → (turn.1.channel i).Fresh := by
  intro turn hturn
  rcases List.mem_append.mp hturn with hturn | hturn
  · exact fresh_idleTurns op hf turn hturn
  · obtain ⟨t, ht, hturn⟩ := List.mem_flatMap.mp hturn
    obtain ⟨byte, hbyte, hturn⟩ := List.mem_flatMap.mp hturn
    exact (fresh_bytes hf hs ht byte hbyte).2 turn hturn

theorem fresh_stops {op : Operation} (hf : m.rig.Fresh i) (hs : op.Spares i m) :
    ∀ r ∈ op.stops m, (r.channel i).Fresh := by
  intro r hr
  obtain ⟨t, ht, hr⟩ := List.mem_flatMap.mp hr
  rcases List.mem_cons.mp hr with rfl | hr
  · exact (fresh_transfers hf hs t ht).channel
  · obtain ⟨byte, hbyte, rfl⟩ := List.mem_map.mp hr
    exact (fresh_bytes hf hs ht byte hbyte).1

/-- An operation that makes the channel stale nowhere has spared it. -/
theorem spares_of_fresh {op : Operation} (hbefore : (m.rig.channel i).Fresh)
    (hinside : ∀ r ∈ op.stops m, (r.channel i).Fresh)
    (hafter : ((op.run m).rig.channel i).Fresh) : op.Spares i m := by
  constructor
  · cases op with
    | write a v =>
        intro ha hregister hi
        have hwritten : (m.write a v).rig.channel i =
            (m.rig.channel i).writeRegister (Address.offset a).toNat v := by
          rw [Console.rig_write ha hregister, Rig.channel_setChannel, if_pos hi, hi]
        have hfresh : ((m.rig.channel i).writeRegister (Address.offset a).toNat v).Fresh :=
          hwritten ▸ hafter
        exact (Channel.fresh_iff_of_cache_eq hbefore (Channel.cache_writeRegister _ _ _)).mp hfresh
    | _ => trivial
  · intro t ht hi
    subst hi
    have hin : ∀ r ∈ t.1.rig :: (t.1.transferNotes Beam.turns t.2).map fun byte => byte.1.rig,
        (r.channel t.2).Fresh :=
      fun r hr => hinside r (List.mem_flatMap.mpr ⟨t, ht, hr⟩)
    have hstart := hin t.1.rig List.mem_cons_self
    by_cases hs : t.1.rig.Spared t.2
    · exact hs
    · obtain ⟨byte, hbyte, hstale⟩ := Host.stale_transferNotes Beam.turns hstart hs
      have hmem := List.mem_cons_of_mem t.1.rig
        (List.mem_map_of_mem (f := fun byte => byte.1.rig) hbyte)
      exact absurd (hin byte.1.rig hmem) hstale

end Operation

/-! ### Runs -/

namespace Console

/-- The turns in which channels come to send while operations are carried out one after the
other. -/
def units : Console → List Operation → List (Rig Board × ChannelId)
  | _, [] => []
  | m, op :: ops => op.units m ++ (op.run m).units ops

/-- The rigs at which such a run stops: before, inside and behind its operations. -/
def stops : Console → List Operation → List (Rig Board)
  | m, [] => [m.rig]
  | m, op :: ops => m.rig :: op.stops m ++ (op.run m).stops ops

/-- All operations of a run spare channel `i`. -/
def Spares (i : ChannelId) : Console → List Operation → Prop
  | _, [] => True
  | m, op :: ops => op.Spares i m ∧ Spares i (op.run m) ops

theorem rig_mem_stops (m : Console) (ops : List Operation) : m.rig ∈ m.stops ops := by
  cases ops with
  | nil => exact List.mem_singleton_self _
  | cons op ops => exact List.mem_cons_self

/-- A channel that all operations spare is fresh wherever the run stops and whenever it has its
turn. -/
theorem fresh_of_spares {i : ChannelId} (ops : List Operation) {m : Console}
    (hf : m.rig.Fresh i) (hs : m.Spares i ops) :
    (∀ r ∈ m.stops ops, (r.channel i).Fresh) ∧
      ∀ turn ∈ m.units ops, turn.2 = i → (turn.1.channel i).Fresh := by
  induction ops generalizing m with
  | nil =>
      constructor
      · intro r hr
        rw [List.mem_singleton.mp hr]
        exact hf.channel
      · intro turn hturn
        cases hturn
  | cons op ops ih =>
      obtain ⟨hop, hops⟩ := hs
      obtain ⟨hstops, hturns⟩ := ih (Operation.fresh_run hf hop) hops
      constructor
      · intro r hr
        rcases List.mem_cons.mp hr with rfl | hr
        · exact hf.channel
        rcases List.mem_append.mp hr with hr | hr
        · exact Operation.fresh_stops hf hop r hr
        · exact hstops r hr
      · intro turn hturn
        rcases List.mem_append.mp hturn with hturn | hturn
        · exact Operation.fresh_units hf hop turn hturn
        · exact hturns turn hturn

/-- A channel that is fresh wherever the run stops was spared by all operations. -/
theorem spares_of_fresh {i : ChannelId} (ops : List Operation) {m : Console}
    (h : ∀ r ∈ m.stops ops, (r.channel i).Fresh) : m.Spares i ops := by
  induction ops generalizing m with
  | nil => trivial
  | cons op ops ih =>
      have hrest : ∀ r ∈ (op.run m).stops ops, (r.channel i).Fresh :=
        fun r hr => h r (List.mem_cons_of_mem _ (List.mem_append_right _ hr))
      have hinside : ∀ r ∈ op.stops m, (r.channel i).Fresh :=
        fun r hr => h r (List.mem_cons_of_mem _ (List.mem_append_left _ hr))
      exact ⟨Operation.spares_of_fresh (h m.rig List.mem_cons_self) hinside
        (hrest _ (rig_mem_stops _ ops)), ih hrest⟩

theorem fresh_powerOn (settings : Settings) (i : ChannelId) :
    (powerOn settings).rig.Fresh i := by
  refine ⟨?_, fun j hj => absurd hj (ChannelMask.not_mem_empty j)⟩
  show ((Controller.powerOn settings).channel i).Fresh
  rw [Controller.channel_powerOn]
  exact Channel.fresh_of_none rfl

end Console

/-- From power-on, the direct access of channel `i` leads to where its registers lead at every stop
of a run if and only if all operations spare the channel.  Then it does so also whenever the channel
has a turn of sending, and a forward unit inside a block sends the bytes that looking at the
addresses of its registers shows. -/
theorem fresh_iff_spares (settings : Settings) (ops : List Operation) (i : ChannelId) :
    ((∀ r ∈ (Console.powerOn settings).stops ops, (r.channel i).Fresh) ↔
        (Console.powerOn settings).Spares i ops) ∧
      ((Console.powerOn settings).Spares i ops →
        ∀ r, (r, i) ∈ (Console.powerOn settings).units ops → ∀ p, r.SendsDirect i p →
          (r.channel i).pointer = some p ∧ r.sendInTurn i = r.lookedTurn i p) := by
  have hf := Console.fresh_powerOn settings i
  refine ⟨⟨Console.spares_of_fresh ops, fun hs => (Console.fresh_of_spares ops hf hs).1⟩, ?_⟩
  intro hs r hr p hp
  have hpointer := (Console.fresh_of_spares ops hf hs).2 (r, i) hr rfl p hp.cache
  exact ⟨hpointer, Rig.sendInTurn_eq_lookedTurn hp hpointer⟩

/-- A direct table on channel 0 is played for a line: three bytes for `$2121`, one on each line. -/
def playing : List Operation :=
  [.write 0x7E1000 0x83, .write 0x7E1001 0xAA, .write 0x7E1002 0xBB, .write 0x7E1003 0xCC,
    .write 0x7E1004 0x00, .write 0x7E3000 0xDD, .write 0x4300 0x00, .write 0x4301 0x21,
    .write 0x4302 0x00, .write 0x4303 0x10, .write 0x4304 0x7E, .write 0x420C 0x01, .lines 1]

/-- Writes to the registers of its channel that do not tell its place leave the table to go on. -/
theorem playing_goes_on :
    ∃ r, (r, 0) ∈ (Console.powerOn .standard).units (playing ++ [.write 0x4302 0x55, .lines 1]) ∧
      r.SendsDirect 0 ⟨0x7E1002⟩ ∧ r.sendInTurn 0 = r.lookedTurn 0 ⟨0x7E1002⟩ ∧
      (r.sendInTurn 0).buses.register 0x2121 = 0xBB := by
  have hspares := (fresh_iff_spares .standard (playing ++ [.write 0x4302 0x55, .lines 1]) 0).1.mp
    (by decide +kernel)
  obtain ⟨⟨r, j⟩, hturn, rfl, hdirect, hsent⟩ :
      ∃ turn ∈ (Console.powerOn .standard).units (playing ++ [.write 0x4302 0x55, .lines 1]),
        turn.2 = 0 ∧ turn.1.SendsDirect 0 ⟨0x7E1002⟩ ∧
          (turn.1.sendInTurn 0).buses.register 0x2121 = 0xBB := by
    decide +kernel
  exact ⟨r, hturn, hdirect, ((fresh_iff_spares _ _ 0).2 hspares r hturn _ hdirect).2, hsent⟩

/-- With its table moved to another place, the channel still sends the next byte from the old
one. -/
theorem stale_unit :
    ∃ turn ∈ (Console.powerOn .standard).units
        (playing ++ [.write 0x4308 0x00, .write 0x4309 0x30, .lines 1]),
      turn.1.SendsDirect turn.2 ⟨0x7E1002⟩ ∧
        (turn.1.channel turn.2).pointer = some ⟨0x7E3000⟩ ∧
        (turn.1.sendInTurn turn.2).buses.register 0x2121 = 0xBB ∧
        (turn.1.lookedTurn turn.2 ⟨0x7E1002⟩).buses.register 0x2121 = 0xDD := by
  decide +kernel

end DmaController
