import DmaController.Proofs.Console.Pointers
import DmaController.Proofs.LineTransfer.Mirror
import DmaController.Proofs.LineTransfer.Requests
import DmaController.Proofs.Logged

/-! # Direct access goes unseen

Line transfers over any number of frames and lines, with the processor writing `$420C` in between,
are a list of requests (`LineRequest`).  Served on buses that open their memory and on buses that
never do, they get the same answers and leave rigs behind that are in step (`serveAll_inStep`).
With a log in front of both, the logs are the same as well (`direct_access_unseen`): what reaches
the buses does not tell whether a byte was fetched directly or through the memory map.

The board of a console opens its memory, and may be made to go through its map alone
(`Board.alike_mapped`). -/

namespace DmaController

/-! ### Two logs -/

section

variable {β γ : Type} [Buses β] [Buses γ]

/-- Both logs hold the same, in front of buses that are the same. -/
structure Logged.Agree (Same : β → γ → Prop) (t : Logged β) (u : Logged γ) : Prop where
  inner : Same t.inner u.inner
  taken : t.taken = u.taken
  calls : t.calls = u.calls

namespace Logged.Agree

variable {Same : β → γ → Prop} {t : Logged β} {u : Logged γ}

omit [Buses β] [Buses γ] in
/-- How memory was looked at makes no difference. -/
theorem looked (h : Logged.Agree Same t u) {b : β} {c : γ} (hs : Same b c)
    {looks looks' : List Look} :
    Logged.Agree Same { t with inner := b, looks := looks }
      { u with inner := c, looks := looks' } := ⟨hs, h.taken, h.calls⟩

omit [Buses β] [Buses γ] in
theorem note (h : Logged.Agree Same t u) {b : β} {c : γ} (hs : Same b c) (e : BusCall) :
    Logged.Agree Same (t.note e b) (u.note e c) :=
  ⟨hs, h.taken, by rw [Logged.note, Logged.note, h.calls]⟩

omit [Buses β] [Buses γ] in
theorem noteRegister (h : Logged.Agree Same t u) {b : β} {c : γ} (hs : Same b c) (a : UInt16)
    (v : UInt8) : Logged.Agree Same (t.noteRegister a v b) (u.noteRegister a v c) := by
  rw [Logged.noteRegister, Logged.noteRegister, h.taken]
  exact h.note hs _

theorem leads {p : Pointer} {bank : UInt8} {o : UInt16} (h : Leads Same p bank o) :
    Leads (Logged.Agree Same) p bank o := by
  intro t u k hs hk
  obtain ⟨v, hpeek, hread, hw⟩ := h k hs.inner hk
  exact ⟨v, hpeek, hread, fun a =>
    ⟨(hs.looked hs.inner).noteRegister (hw a).1 a v,
      (hs.looked hs.inner).noteRegister (hw a).2 a v⟩⟩

end Logged.Agree

variable {Same : β → γ → Prop}

/-- A log in front of either kind of buses makes no difference. -/
theorem Alike.logged (hsame : Alike Same) : Alike (Logged.Agree Same) where
  read a h := ⟨(hsame.read a h.inner).1, h.looked (hsame.read a h.inner).2⟩
  readWord a h := ⟨(hsame.readWord a h.inner).1, h.looked (hsame.readWord a h.inner).2⟩
  readRegister := by
    intro t u a h
    obtain ⟨hv, hread⟩ := hsame.readRegister a h.inner
    have hentry : BusCall.readRegister a (Buses.readRegister a u.inner).1 u.taken =
        .readRegister a (Buses.readRegister a t.inner).1 t.taken := by rw [hv, h.taken]
    refine ⟨hv, ?_⟩
    show Logged.Agree Same (t.note _ _) (u.note (.readRegister a _ u.taken) _)
    rw [hentry]
    exact h.note hread _
  write a v h := h.note (hsame.write a v h.inner) _
  writeRegister a v h := h.noteRegister (hsame.writeRegister a v h.inner) a v
  setWorkRamTaken taken h :=
    ⟨hsame.setWorkRamTaken taken h.inner, rfl,
      (h.note (hsame.setWorkRamTaken taken h.inner) (.setWorkRamTaken taken)).calls⟩
  setSpriteAddress a h := h.note (hsame.setSpriteAddress a h.inner) _
  asked a h := h.looked (hsame.asked a h.inner)
  opened h hp := Logged.Agree.leads (hsame.opened h.inner hp)
  closed a h := ⟨(hsame.closed a h.inner).1, h.looked (hsame.closed a h.inner).2⟩

end

/-! ### Requests in step -/

namespace Rig

variable {β γ : Type} [Buses β] [Buses γ] {Same : β → γ → Prop} {r : Rig β} {s : Rig γ}

theorem serve_inStep (hsame : Alike Same) (h : InStep Same r s) (q : LineRequest) :
    (s.serve q).1 = (r.serve q).1 ∧ InStep Same (r.serve q).2 (s.serve q).2 := by
  cases q with
  | enable m =>
      refine ⟨rfl, h.toMirrors.withController ?_, ?_⟩
      · rw [h.controller]
        exact Controller.closed_enable _ m
      · intro i
        show ((r.controller.enable m).channel i).Cached _
        rw [Controller.channel_enable]
        exact h.cached i
  | frame => exact ⟨rfl, inStep_beginFrame hsame h⟩
  | line m =>
      obtain ⟨hanswer, hran⟩ := inStep_runLine hsame h m
      exact ⟨congrArg some hanswer, hran⟩

theorem serveAll_inStep (hsame : Alike Same) (requests : List LineRequest)
    (h : InStep Same r s) :
    (s.serveAll requests).1 = (r.serveAll requests).1 ∧
      InStep Same (r.serveAll requests).2 (s.serveAll requests).2 := by
  induction requests generalizing r s with
  | nil => exact ⟨rfl, h⟩
  | cons q qs ih =>
      obtain ⟨hanswer, hserved⟩ := serve_inStep hsame h q
      obtain ⟨hanswers, hlast⟩ := ih hserved
      refine ⟨?_, hlast⟩
      rw [serveAll, serveAll, hanswer, hanswers]

end Rig

/-! ### A board that opens nothing -/

/-- Buses of which all memory goes through the memory map. -/
structure Mapped (β : Type) where
  inner : β

instance {β : Type} [Buses β] : Buses (Mapped β) where
  read a t :=
    let got := Buses.read a t.inner
    (got.1, ⟨got.2⟩)
  readWord a t :=
    let got := Buses.readWord a t.inner
    (got.1, ⟨got.2⟩)
  write a v t := ⟨Buses.write a v t.inner⟩
  readRegister a t :=
    let got := Buses.readRegister a t.inner
    (got.1, ⟨got.2⟩)
  writeRegister a v t := ⟨Buses.writeRegister a v t.inner⟩
  blockPointer _ t := (none, t)
  bytePointer _ t := (none, t)
  peek p t :=
    let got := Buses.peek p t.inner
    (got.1, ⟨got.2⟩)
  remapsVideo t := Buses.remapsVideo t.inner
  writeSprite v t := ⟨Buses.writeSprite v t.inner⟩
  writeVideo high remapped v t := ⟨Buses.writeVideo high remapped v t.inner⟩
  writeColour v t := ⟨Buses.writeColour v t.inner⟩
  writeWorkRam v t := ⟨Buses.writeWorkRam v t.inner⟩
  setOpenBus v t := ⟨Buses.setOpenBus v t.inner⟩
  setWorkRamTaken taken t := ⟨Buses.setWorkRamTaken taken t.inner⟩
  setSpriteAddress a t := ⟨Buses.setSpriteAddress a t.inner⟩

namespace Board

theorem writePort_openBus (a : UInt16) (v w : UInt8) (b : Board) :
    writePort a v { b with openBus := w } = { writePort a v b with openBus := w } := by
  unfold writePort
  dsimp only
  split
  · split <;> rfl
  split
  · rfl
  split
  · rfl
  split <;> rfl

/-- A register write does not look at what floats on the bus, and leaves its own byte there. -/
theorem writeRegister_openBus (a : UInt16) (v w : UInt8) (b : Board) :
    writeRegister a v { b with openBus := w } = writeRegister a v b := by
  have hport (b : Board) := congrArg (fun b : Board =>
    { b with registers := b.registers.set (a.toNat % 0x100) v, openBus := v })
    (writePort_openBus a v w b)
  unfold writeRegister
  dsimp only
  split
  · exact hport { b with trace := (a, v) :: b.trace }
  · exact hport b

/-- The board serves line transfers through its pointers as it does through its memory map. -/
theorem alike_mapped : Alike fun (b : Board) (c : Mapped Board) => c.inner = b where
  read := by rintro b ⟨_⟩ a rfl; exact ⟨rfl, rfl⟩
  readWord := by rintro b ⟨_⟩ a rfl; exact ⟨rfl, rfl⟩
  readRegister := by rintro b ⟨_⟩ a rfl; exact ⟨rfl, rfl⟩
  write := by rintro b ⟨_⟩ a v rfl; rfl
  writeRegister := by rintro b ⟨_⟩ a v rfl; rfl
  setWorkRamTaken := by rintro b ⟨_⟩ taken rfl; rfl
  setSpriteAddress := by rintro b ⟨_⟩ a rfl; rfl
  asked := by rintro b ⟨_⟩ a rfl; rfl
  opened := by
    intro _ _ bank o p _ hp b c k hs hk
    obtain ⟨inner⟩ := c
    obtain rfl : inner = b := hs
    rw [bytePointer_fst] at hp
    -- There is memory wherever a pointer leads.
    have hcell := (Region.cell?_of bank _).trans
      (cell_of_points (reaching_points.moved hk hp)).symm
    have hmapped : Buses.read (.of bank (o + UInt16.ofNat k)) (⟨inner⟩ : Mapped Board) =
        (inner.look (.of bank (o + UInt16.ofNat k)),
          ⟨{ inner with openBus := inner.look (.of bank (o + UInt16.ofNat k)) }⟩) :=
      congrArg (fun got : UInt8 × Board => (got.1, (⟨got.2⟩ : Mapped Board)))
        (read_of_cell hcell inner)
    refine ⟨inner.look (.of bank (o + UInt16.ofNat k)), peek_points hp hk inner,
      by rw [hmapped], fun a => ?_⟩
    rw [hmapped]
    exact ⟨writeRegister_openBus a _ _ inner, rfl⟩
  closed := by rintro b ⟨_⟩ a rfl; exact ⟨rfl, rfl⟩

end Board

/-! ### The same calls -/

section

variable {β γ : Type} [Buses β] [Buses γ] {Same : β → γ → Prop}

/-- Whether memory is opened for direct access or not, the same calls reach the buses, with the
same answers, in the same time and with the same controller in the end but for the direct access
its channels have. -/
theorem direct_access_unseen (hsame : Alike Same) {b : β} {c : γ} (hs : Same b c)
    {k : Controller} (hk : ∀ i, (k.channel i).cache = none) (n : Int)
    (requests : List LineRequest) :
    let direct := Rig.serveAll ⟨k, Logged.start b, n⟩ requests
    let mapped := Rig.serveAll ⟨k, Logged.start c, n⟩ requests
    mapped.1 = direct.1 ∧
      mapped.2.buses.calls = direct.2.buses.calls ∧
      mapped.2.cycles = direct.2.cycles ∧
      mapped.2.controller = direct.2.controller.closed ∧
      Same direct.2.buses.inner mapped.2.buses.inner := by
  have hstart : Rig.InStep (Logged.Agree Same) ⟨k, Logged.start b, n⟩ ⟨k, Logged.start c, n⟩ :=
    ⟨⟨(Controller.closed_of_none hk).symm, ⟨hs, rfl, rfl⟩, rfl⟩,
      fun i => Channel.cached_of_none (hk i)⟩
  obtain ⟨hanswers, hlast⟩ := Rig.serveAll_inStep hsame.logged requests hstart
  exact ⟨hanswers, hlast.buses.calls.symm, hlast.cycles, hlast.controller, hlast.buses.inner⟩

end

/-- Channel 0 has an alternating table for `$2121` at `7E:1000`. -/
def tabled : Controller :=
  (Controller.powerOn .standard).setChannel (channelNumber 0)
    { Channel.powerOn with
      control := .ofByte 0x01
      port := 0x21
      bank := 0x7E
      address := 0x1000 }

theorem cache_tabled (i : ChannelId) : (tabled.channel i).cache = none := by
  revert i
  decide

/-- A board with the bytes of the table. -/
def tableBoard : Board :=
  Board.powerOn.load 0x7E1000 [0x83, 0x0A, 0x0B, 0x0C, 0x0D, 0x0E, 0x0F, 0x00]

/-- The channel is enabled, a frame begins and two lines pass. -/
def twoLines {β : Type} [Buses β] (b : β) : List (Option ChannelMask) × Rig (Logged β) :=
  Rig.serveAll ⟨tabled, Logged.start b, 0⟩ [.enable ⟨1⟩, .frame, .line ⟨1⟩, .line ⟨1⟩]

/-- On a board, the table is played with direct access, and as it is without. -/
theorem table_unseen :
    ((twoLines tableBoard).2.controller.channel 0).cache = some ⟨0x7E1005⟩ ∧
      (twoLines (Mapped.mk tableBoard)).1 = (twoLines tableBoard).1 ∧
      (twoLines (Mapped.mk tableBoard)).2.buses.calls = (twoLines tableBoard).2.buses.calls ∧
      (twoLines (Mapped.mk tableBoard)).2.cycles = (twoLines tableBoard).2.cycles ∧
      (twoLines (Mapped.mk tableBoard)).2.controller =
        (twoLines tableBoard).2.controller.closed ∧
      (twoLines (Mapped.mk tableBoard)).2.buses.inner.inner =
        (twoLines tableBoard).2.buses.inner := by
  refine ⟨by decide +kernel, ?_⟩
  have hunseen := direct_access_unseen Board.alike_mapped (b := tableBoard) (c := ⟨tableBoard⟩) rfl
    cache_tabled 0 [.enable ⟨1⟩, .frame, .line ⟨1⟩, .line ⟨1⟩]
  unfold twoLines
  exact hunseen

end DmaController
