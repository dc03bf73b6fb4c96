import DmaController.Proofs.Console.Ended
import DmaController.Proofs.Console.Pace
import DmaController.Proofs.LineTransfer.Level
import DmaController.Proofs.Traced

/-! # Consoles on a level

The board answers line transfers to the registers out of its memory.  What floats on the bus, what
the registers hold and where sprites go is nothing to them; whether the work RAM port serves the
bytes they write there, they say themselves.  Only in the *register area* of a system bank, between
work RAM and `$8000`, does reading show more of the board than its memory.  So boards with the same
memory, whose ports have come to the same place, concur as long as nothing is read there
(`Board.concur`).

What an event of a console reads and writes is seen by putting a notebook in front of the board
(`Console.requests`).  That changes nothing else, and on level consoles an event writes the same to
the B-bus and leaves them level (`Console.level_fire`). -/

namespace DmaController

/-- The offsets `$2000` to `$7FFF` of a system bank: between its part of work RAM and its read-only
memory. -/
def Address.inRegisterArea (a : Address) : Bool :=
  isSystemBank (bank a) && decide (0x2000 ≤ offset a) && decide (offset a < 0x8000)

/-- The address at which a request reads. -/
def BusCall.readAt? : BusCall → Option Address
  | read a _ => some a
  | _ => none

/-- Nothing was read in the register area. -/
def Traced.Clear {β : Type} (t : Traced β) : Prop :=
  ∀ a ∈ t.calls.filterMap BusCall.readAt?, a.inRegisterArea = false

/-- All that lies outside of the register area is memory. -/
theorem Region.cell?_of_outside {a : Address} (ha : a.inRegisterArea = false) :
    ∃ c, (Region.of a).cell? = some c := by
  unfold Region.of
  dsimp only
  by_cases hs : isSystemBank a.bank = true
  · rw [if_pos hs]
    by_cases hlow : a.offset < 0x2000
    · rw [if_pos hlow]
      exact ⟨_, rfl⟩
    · have hhigh : ¬ a.offset < 0x8000 := by
        unfold Address.inRegisterArea at ha
        rw [hs, decide_eq_true (UInt16.not_lt.mp hlow), Bool.true_and, Bool.true_and] at ha
        exact of_decide_eq_false ha
      have hregisters : ¬ (0x2100 ≤ a.offset ∧ a.offset ≤ 0x21FF) := by
        rintro ⟨-, hle⟩
        exact hhigh (UInt16.lt_of_le_of_lt hle (by decide))
      rw [if_neg hlow, if_neg hregisters, if_neg hhigh]
      exact ⟨_, rfl⟩
  · rw [if_neg hs]
    split <;> exact ⟨_, rfl⟩

/-! ### Level boards -/

namespace Board

/-- The boards have the same memory, and their ports have come to the same place.  If `told`, both
have heard the same about work RAM. -/
structure Level (told : Bool) (b c : Board) : Prop where
  memory : c.memory = b.memory
  workAddress : c.workAddress = b.workAddress
  taken : told = true → c.workRamTaken = b.workRamTaken

variable {told : Bool} {b c : Board}

namespace Level

theorem refl (b : Board) : b.Level told b := ⟨rfl, rfl, fun _ => rfl⟩

theorem symm (h : b.Level told c) : c.Level told b :=
  ⟨h.memory.symm, h.workAddress.symm, fun ht => (h.taken ht).symm⟩

theorem trans {d : Board} (h : b.Level told c) (h' : c.Level told d) : b.Level told d :=
  ⟨h'.memory.trans h.memory, h'.workAddress.trans h.workAddress,
    fun ht => (h'.taken ht).trans (h.taken ht)⟩

theorem forget (h : b.Level told c) : b.Level false c := ⟨h.memory, h.workAddress, nofun⟩

theorem say (h : b.Level told c) (taken taken' : Bool) :
    Level (taken == taken') (Buses.setWorkRamTaken taken b) (Buses.setWorkRamTaken taken' c) :=
  ⟨h.memory, h.workAddress, fun ht => (beq_iff_eq.mp ht).symm⟩

/-- Outside of the register area both show the same memory. -/
theorem read (h : b.Level told c) {a : Address} (ha : a.inRegisterArea = false) :
    (Buses.read a c).1 = (Buses.read a b).1 ∧
      Level told (Buses.read a b).2 (Buses.read a c).2 := by
  obtain ⟨n, hn⟩ := Region.cell?_of_outside ha
  show (c.read a).1 = (b.read a).1 ∧ Level told (b.read a).2 (c.read a).2
  have hlook : c.look a = b.look a := by
    rw [look_of_cell hn, look_of_cell hn, h.memory]
  rw [read_of_cell hn, read_of_cell hn]
  exact ⟨hlook, h.memory, h.workAddress, h.taken⟩

/-- The port does the same on both, if both have heard the same about work RAM. -/
theorem writePort (h : b.Level true c) (a : UInt16) (v : UInt8) :
    Level true (b.writePort a v) (c.writePort a v) := by
  have htaken := h.taken rfl
  unfold Board.writePort
  dsimp only
  rw [h.workAddress, htaken]
  split
  · split
    · exact h
    · refine ⟨?_, ?_, fun _ => htaken⟩
      · show c.memory.set c.portCell v = b.memory.set b.portCell v
        rw [portCell, portCell, h.memory, h.workAddress]
      · show (c.workAddress + 1) % workRamSize = (b.workAddress + 1) % workRamSize
        rw [h.workAddress]
  split
  · exact ⟨h.memory, rfl, fun _ => rfl⟩
  split
  · exact ⟨h.memory, rfl, fun _ => rfl⟩
  split
  · exact ⟨h.memory, rfl, fun _ => rfl⟩
  · exact h

/-- Tracing a write is nothing to memory and port. -/
theorem traced (a : UInt16) (v : UInt8) (b : Board) :
    b.Level told (if b.tracing then { b with trace := (a, v) :: b.trace } else b) := by
  split <;> exact ⟨rfl, rfl, fun _ => rfl⟩

theorem writeRegister (h : b.Level true c) (a : UInt16) (v : UInt8) :
    Level true (Buses.writeRegister a v b) (Buses.writeRegister a v c) := by
  have hported := (((traced a v b).symm.trans h).trans (traced a v c)).writePort a v
  exact ⟨hported.memory, hported.workAddress, hported.taken⟩

end Level

/-- A register that is not one of the port's is nothing to it. -/
theorem writePort_of_outside {a : UInt16} (ha : ¬ (0x2180 ≤ a ∧ a ≤ 0x2183)) (v : UInt8)
    (b : Board) : b.writePort a v = b := by
  have hne : ∀ n : UInt16, 0x2180 ≤ n → n ≤ 0x2183 → a ≠ n := by
    rintro n hlow hhigh rfl
    exact ha ⟨hlow, hhigh⟩
  unfold writePort
  rw [if_neg (hne 0x2180 (by decide) (by decide)), if_neg (hne 0x2181 (by decide) (by decide)),
    if_neg (hne 0x2182 (by decide) (by decide)), if_neg (hne 0x2183 (by decide) (by decide))]

/-- Writing such a register leaves the board level with what it was. -/
theorem level_writeRegister {a : UInt16} (ha : ¬ (0x2180 ≤ a ∧ a ≤ 0x2183)) (v : UInt8)
    (b : Board) : b.Level false (Buses.writeRegister a v b) := by
  have hported : b.Level false
      (writePort a v (if b.tracing then { b with trace := (a, v) :: b.trace } else b)) := by
    rw [writePort_of_outside ha]
    exact .traced a v b
  exact ⟨hported.memory, hported.workAddress, nofun⟩

end Board

/-! ### Behind a notebook -/

namespace Traced

variable {t t' : Traced Board}

/-- All requests are noted. -/
theorem calls_step (h : Buses.Step t t') : ∃ calls, t'.calls = t.calls ++ calls := by
  cases h with
  | readWord a => exact ⟨_, List.append_assoc _ _ _⟩
  | _ => exact ⟨_, rfl⟩

theorem Clear.of_append {calls : List BusCall} (hcalls : t'.calls = t.calls ++ calls)
    (h : t'.Clear) : t.Clear := by
  intro a ha
  refine h a ?_
  rw [hcalls, List.filterMap_append]
  exact List.mem_append_left _ ha

theorem Clear.of_step (h : Buses.Step t t') (hclear : t'.Clear) : t.Clear := by
  obtain ⟨calls, hcalls⟩ := calls_step h
  exact hclear.of_append hcalls

theorem Clear.outside {a : Address} (h : (Buses.read a t).2.Clear) : a.inRegisterArea = false :=
  h a (List.mem_filterMap.mpr ⟨_, List.mem_append_right _ (List.mem_singleton_self _), rfl⟩)

/-- Reading twice is clear only if both addresses are. -/
theorem Clear.outside_word {a : Address} (h : (Buses.readWord a t).2.Clear) :
    Address.inRegisterArea (a % 0x1000000) = false ∧
      Address.inRegisterArea ((a + 1) % 0x1000000) = false := by
  have hlow : (Buses.read (a % 0x1000000) t).2.Clear :=
    .of_step (.read ((a + 1) % 0x1000000) _) h
  exact ⟨hlow.outside, Clear.outside h⟩

end Traced

/-- A board concurs with one behind a notebook. -/
theorem Board.concur :
    Concur (fun told (b : Board) (t : Traced Board) => b.Level told t.inner) Traced.Clear where
  read a h hclear := h.read hclear.outside
  readWord a h hclear := by
    obtain ⟨hlow, hhigh⟩ := hclear.outside_word
    obtain ⟨hv, hread⟩ := h.read hlow
    obtain ⟨hw, hread'⟩ := hread.read hhigh
    refine ⟨?_, hread'⟩
    exact congrArg₂ (fun v w : UInt8 => w.toUInt16 * 0x100 + v.toUInt16) hv hw
  bytePointer a h := ⟨rfl, h⟩
  peek p h := ⟨congrArg (·.get (p.index.toNat % 0x1000000)) h.memory, h⟩
  writeRegister a v h := h.writeRegister a v
  setOpenBus v h := ⟨h.memory, h.workAddress, h.taken⟩
  setSpriteAddress a h := ⟨h.memory, h.workAddress, h.taken⟩
  say taken taken' h := h.say taken taken'
  forget h := h.forget
  clear_of_step hstep hclear := hclear.of_step hstep
  clear_of_say taken hclear := Traced.Clear.of_append rfl hclear

namespace Traced

/-- The boards behind the notebooks are level, and the same register writes were noted. -/
structure Level (told : Bool) (t t' : Traced Board) : Prop where
  inner : t.inner.Level told t'.inner
  written : t'.calls.filterMap BusCall.written? = t.calls.filterMap BusCall.written?

/-- Both note one more request. -/
theorem Level.note {told told' : Bool} {t t' u u' : Traced Board} {x x' : BusCall}
    (h : t.Level told t') (hinner : u.inner.Level told' u'.inner)
    (hu : u.calls = t.calls ++ [x]) (hu' : u'.calls = t'.calls ++ [x'])
    (hx : x'.written? = x.written?) : u.Level told' u' := by
  refine ⟨hinner, ?_⟩
  rw [hu, hu', List.filterMap_append, List.filterMap_append, h.written]
  simp only [List.filterMap_cons, hx]

/-- Two notebooks concur if their boards do. -/
theorem concur : Concur Level Clear where
  read a h hclear := by
    obtain ⟨hv, hread⟩ := h.inner.read hclear.outside
    exact ⟨hv, h.note hread rfl rfl rfl⟩
  readWord a h hclear := by
    obtain ⟨hlow, hhigh⟩ := hclear.outside_word
    obtain ⟨hv, hread⟩ := h.inner.read hlow
    obtain ⟨hw, hread'⟩ := hread.read hhigh
    have hnoted : Level _ (Buses.read (a % 0x1000000) _).2 (Buses.read (a % 0x1000000) _).2 :=
      h.note hread rfl rfl rfl
    exact ⟨congrArg₂ (fun v w : UInt8 => w.toUInt16 * 0x100 + v.toUInt16) hv hw,
      hnoted.note hread' rfl rfl rfl⟩
  bytePointer a h := ⟨rfl, h.note h.inner rfl rfl rfl⟩
  peek p h := ⟨congrArg (·.get (p.index.toNat % 0x1000000)) h.inner.memory,
    h.note h.inner rfl rfl rfl⟩
  writeRegister a v h := h.note (h.inner.writeRegister a v) rfl rfl rfl
  setOpenBus v h := h.note (Board.concur.setOpenBus v h.inner) rfl rfl rfl
  setSpriteAddress a h := h.note (Board.concur.setSpriteAddress a h.inner) rfl rfl rfl
  say taken taken' h := h.note (h.inner.say taken taken') rfl rfl rfl
  forget h := ⟨h.inner.forget, h.written⟩
  clear_of_step hstep hclear := hclear.of_step hstep
  clear_of_say taken hclear := Clear.of_append rfl hclear

end Traced

/-! ### Events -/

namespace Beam

/-- The beams have come to the same event, on the same line of the same frame. -/
structure Level (b b' : Beam) : Prop where
  line : b'.line = b.line
  frame : b'.frame = b.frame
  event : b'.event = b.event

namespace Level

variable {b b' b'' : Beam}

theorem refl (b : Beam) : b.Level b := ⟨rfl, rfl, rfl⟩

theorem symm (h : b.Level b') : b'.Level b := ⟨h.line.symm, h.frame.symm, h.event.symm⟩

theorem trans (h : b.Level b') (h' : b'.Level b'') : b.Level b'' :=
  ⟨h'.line.trans h.line, h'.frame.trans h.frame, h'.event.trans h.event⟩

theorem openLine (hline : b'.line = b.line) (hframe : b'.frame = b.frame) :
    b.openLine.Level b'.openLine := by
  unfold Beam.openLine
  rw [hline]
  split
  · exact ⟨hline, hframe, rfl⟩
  split
  · exact ⟨hline, hframe, rfl⟩
  · exact ⟨hline, hframe, rfl⟩

theorem nextLine (h : b.Level b') : b.nextLine.Level b'.nextLine := by
  unfold Beam.nextLine
  refine openLine ?_ ?_
  · dsimp only
    rw [h.line]
  · dsimp only
    rw [h.line, h.frame]

theorem passed (h : b.Level b') : b.passed.Level b'.passed := by
  unfold Beam.passed
  rw [h.event]
  cases b.event with
  | beginFrame => exact ⟨h.line, h.frame, rfl⟩
  | runLine => exact ⟨h.line, h.frame, rfl⟩
  | endLine => exact h.nextLine

end Level

end Beam

/-- Lines are run on channels outside of `D` alone, and all of these send. -/
structure Rig.LinesOutside {β : Type} (D : ChannelMask) (r : Rig β) : Prop where
  consistent : r.Consistent
  enabled : r.SendsOutside D r.controller.enabled

namespace Rig.LinesOutside

variable {β : Type} {D : ChannelMask} {r : Rig β}

theorem active (h : r.LinesOutside D) : r.SendsOutside D r.controller.active := by
  intro i hi
  rw [show r.controller.active = _ from h.consistent] at hi
  exact h.enabled i (ChannelMask.mem_sdiff.mp hi).1

theorem notMem_active (h : r.LinesOutside D) {i : ChannelId} (hi : i ∉ r.controller.enabled) :
    i ∉ r.controller.active := by
  rw [show r.controller.active = _ from h.consistent, ChannelMask.mem_sdiff]
  exact fun hactive => hi hactive.1

theorem level {Same : β → β → Prop} {s : Rig β} (h : r.LinesOutside D) (hs : r.Level Same D s) :
    s.LinesOutside D := by
  refine ⟨?_, fun i hi => ?_⟩
  · rw [Rig.Consistent, hs.controller.active, hs.controller.enabled, hs.controller.ended]
    exact h.consistent
  · rw [hs.controller.enabled] at hi
    obtain ⟨hD, hforward⟩ := h.enabled i hi
    rw [hs.channel hD]
    exact ⟨hD, hforward⟩

end Rig.LinesOutside

namespace Beam

variable {β γ : Type} [Buses β] [Buses γ] {Same : Bool → β → γ → Prop} {Clear : γ → Prop}

/-- An event leaves level hosts level. -/
theorem level_fire (hc : Concur Same Clear) {D : ChannelMask} {h : Host Beam β} {g : Host Beam γ}
    (hplace : h.schedule.Level g.schedule) (hr : h.rig.Level (Same false) D g.rig)
    (hlines : h.rig.LinesOutside D) (hclear : Clear (fire g).rig.buses) :
    (fire h).schedule.Level (fire g).schedule ∧
      (fire h).rig.Level (Same false) D (fire g).rig := by
  have hevent := hplace.event
  refine ⟨?_, ?_⟩
  · rw [schedule_fire, schedule_fire]
    exact hplace.passed
  · unfold fire at hclear ⊢
    rw [hevent] at hclear ⊢
    cases hnext : h.schedule.event with
    | beginFrame =>
        rw [hnext] at hclear
        exact Rig.level_beginFrame hc hr (fun i hi => (hlines.enabled i hi).1) hclear
    | runLine =>
        rw [hnext] at hclear
        dsimp only at hclear ⊢
        rw [hr.controller.active] at hclear ⊢
        split
        · exact hr
        · rename_i hactive
          rw [if_neg hactive] at hclear
          exact (Rig.level_runLine hc hr hlines.active hclear).2
    | endLine => exact hr.spend _ _

end Beam

/-! ### Consoles -/

namespace Console

/-- The console with a notebook in front of its board. -/
def noted (m : Console) : Host Beam (Traced Board) where
  rig := ⟨m.rig.controller, ⟨m.board, m.board.workRamTaken, []⟩, m.rig.cycles⟩
  schedule := m.schedule

/-- What is asked of the board in the event to come. -/
def requests (m : Console) : List BusCall := (Beam.fire m.noted).rig.buses.calls

/-- What is written to the B-bus in the event to come. -/
def writes (m : Console) : List (UInt16 × UInt8) := m.requests.filterMap BusCall.written?

/-- The event to come reads nothing in the register area. -/
def Clear (m : Console) : Prop :=
  ∀ a ∈ m.requests.filterMap BusCall.readAt?, a.inRegisterArea = false

instance (m : Console) : Decidable m.Clear := List.decidableBAll _ _

/-- The consoles have come to the same event, and are on a level there but for the channels of
`D`. -/
structure Level (D : ChannelMask) (m m' : Console) : Prop where
  place : m.schedule.Level m'.schedule
  rig : m.rig.Level (Board.Level false) D m'.rig

variable {D : ChannelMask} {m m' m'' : Console}

namespace Level

theorem refl (D : ChannelMask) (m : Console) : m.Level D m :=
  ⟨.refl _, .refl D _, .refl _⟩

theorem symm (h : m.Level D m') : m'.Level D m :=
  ⟨h.place.symm, h.rig.controller.symm, h.rig.buses.symm⟩

theorem trans (h : m.Level D m') (h' : m'.Level D m'') : m.Level D m'' :=
  ⟨h.place.trans h'.place, h.rig.controller.trans h'.rig.controller,
    h.rig.buses.trans h'.rig.buses⟩

theorem mono {E : ChannelMask} (h : m.Level D m') (hE : ∀ {i}, i ∈ D → i ∈ E) : m.Level E m' :=
  ⟨h.place, h.rig.controller.mono hE, h.rig.buses⟩

end Level

theorem level_spend (D : ChannelMask) (m : Console) (n : Int) : m.Level D (m.spend n) :=
  ⟨.refl _, .refl D _, .refl _⟩

/-- The event of the second of two level consoles does what it does behind a notebook in front of
the first. -/
theorem level_noted (h : m.Level D m') (hlines : m'.rig.LinesOutside D) (hclear : m.Clear) :
    (Beam.fire m').schedule.Level (Beam.fire m.noted).schedule ∧
      (Beam.fire m').rig.Level (fun b t => b.Level false t.inner) D (Beam.fire m.noted).rig :=
  Beam.level_fire Board.concur (g := m.noted) h.symm.place
    ⟨h.symm.rig.controller, h.symm.rig.buses⟩ hlines hclear

/-- On level consoles an event writes the same to the B-bus, and leaves them level. -/
theorem level_fire (h : m.Level D m') (hlines : m'.rig.LinesOutside D) (hclear : m.Clear) :
    Level D (Beam.fire m) (Beam.fire m') ∧ m'.writes = m.writes := by
  obtain ⟨hplace, hrig⟩ := level_noted (.refl D m) (hlines.level h.symm.rig) hclear
  obtain ⟨hplace', hrig'⟩ := level_noted h hlines hclear
  refine ⟨⟨hplace.trans hplace'.symm, hrig.controller.trans hrig'.controller.symm,
    hrig.buses.trans hrig'.buses.symm⟩, ?_⟩
  have hnoted : m'.noted.rig.Level (Traced.Level false) D m.noted.rig :=
    ⟨h.symm.rig.controller, h.symm.rig.buses, rfl⟩
  obtain ⟨-, hfired⟩ := Beam.level_fire Traced.concur (h := m'.noted) (g := m.noted) h.symm.place
    hnoted ⟨hlines.consistent, hlines.enabled⟩ hclear
  exact hfired.buses.written.symm

/-- Events leave it at that which channels the lines are run on, and that these send. -/
theorem linesOutside_fire (h : m.rig.LinesOutside D) : (Beam.fire m).rig.LinesOutside D := by
  have henabled : (Beam.fire m).rig.controller.enabled = m.rig.controller.enabled :=
    Beam.fire_induction (P := fun r => r.controller.enabled = m.rig.controller.enabled) rfl
      (Rig.enabled_beginFrame _) (Rig.enabled_runLine _ _) fun _ => rfl
  refine ⟨((Beam.along_fire (Rig.Path.along _) m).consistent h.consistent).2, fun i hi => ?_⟩
  have hset : (m.rig.channel i).SetAs ((Beam.fire m).rig.channel i) :=
    Beam.fire_induction (P := fun r => (m.rig.channel i).SetAs (r.channel i)) (.refl _)
      (Rig.setAs_beginFrame _ i) (Rig.setAs_runLine _ _ i) fun _ => .refl _
  obtain ⟨hD, hforward⟩ := h.enabled i (henabled ▸ hi)
  exact ⟨hD, hset.control_eq ▸ hforward⟩

end Console

end DmaController
