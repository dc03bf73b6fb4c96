import DmaController.Console.Beam
import DmaController.Proofs.LineTransfer.Turns
import DmaController.Proofs.Transfer.Events

/-! # Buses that answer for others

A map from the states of some buses to those of others is `Faithful` if every access goes through
it: the other buses give the same answer, and are left in the image of the state that the first ones
are left in.  A controller cannot tell the two apart.  So a rig or a host taken `through` a faithful
map runs as the one it comes from and ends where that one does, taken through the map: byte by byte,
in lines and frames (`Beam.fire_through`), and in whole transfers (`Host.runChannel_through`). -/

namespace DmaController

/-- Every access goes through the map `f`. -/
structure Buses.Faithful {β γ : Type} [Buses β] [Buses γ] (f : β → γ) : Prop where
  read : ∀ a b, Buses.read a (f b) = ((Buses.read a b).1, f (Buses.read a b).2)
  write : ∀ a v b, Buses.write a v (f b) = f (Buses.write a v b)
  readRegister : ∀ a b,
    Buses.readRegister a (f b) = ((Buses.readRegister a b).1, f (Buses.readRegister a b).2)
  writeRegister : ∀ a v b, Buses.writeRegister a v (f b) = f (Buses.writeRegister a v b)
  blockPointer : ∀ a b,
    Buses.blockPointer a (f b) = ((Buses.blockPointer a b).1, f (Buses.blockPointer a b).2)
  bytePointer : ∀ a b,
    Buses.bytePointer a (f b) = ((Buses.bytePointer a b).1, f (Buses.bytePointer a b).2)
  peek : ∀ p b, Buses.peek p (f b) = ((Buses.peek p b).1, f (Buses.peek p b).2)
  readWord : ∀ a b, Buses.readWord a (f b) = ((Buses.readWord a b).1, f (Buses.readWord a b).2)
  remapsVideo : ∀ b, Buses.remapsVideo (f b) = Buses.remapsVideo b
  writeSprite : ∀ v b, Buses.writeSprite v (f b) = f (Buses.writeSprite v b)
  writeVideo : ∀ high remapped v b,
    Buses.writeVideo high remapped v (f b) = f (Buses.writeVideo high remapped v b)
  writeColour : ∀ v b, Buses.writeColour v (f b) = f (Buses.writeColour v b)
  writeWorkRam : ∀ v b, Buses.writeWorkRam v (f b) = f (Buses.writeWorkRam v b)
  setOpenBus : ∀ v b, Buses.setOpenBus v (f b) = f (Buses.setOpenBus v b)
  setWorkRamTaken : ∀ taken b,
    Buses.setWorkRamTaken taken (f b) = f (Buses.setWorkRamTaken taken b)
  setSpriteAddress : ∀ a b, Buses.setSpriteAddress a (f b) = f (Buses.setSpriteAddress a b)

/-- The rig on the buses that answer for its own. -/
def Rig.through {β γ : Type} (f : β → γ) (r : Rig β) : Rig γ :=
  ⟨r.controller, f r.buses, r.cycles⟩

/-- The host on the buses that answer for its own. -/
def Host.through {κ β γ : Type} (f : β → γ) (h : Host κ β) : Host κ γ :=
  ⟨h.rig.through f, h.schedule⟩

variable {β γ : Type} {f : β → γ}

/-! ### Single accesses -/

namespace Rig

@[simp] theorem controller_through (f : β → γ) (r : Rig β) :
    (r.through f).controller = r.controller := rfl

@[simp] theorem channel_through (f : β → γ) (r : Rig β) (i : ChannelId) :
    (r.through f).channel i = r.channel i := rfl

theorem setChannel_through (f : β → γ) (r : Rig β) (i : ChannelId) (c : Channel) :
    (r.through f).setChannel i c = (r.setChannel i c).through f := rfl

theorem modifyChannel_through (f : β → γ) (r : Rig β) (i : ChannelId) (g : Channel → Channel) :
    (r.through f).modifyChannel i g = (r.modifyChannel i g).through f := rfl

theorem spend_through (f : β → γ) (r : Rig β) (n : Int) :
    (r.through f).spend n = (r.spend n).through f := rfl

/-- What goes through the map on the buses goes through it on the rig. -/
theorem modifyBuses_through {g : β → β} {g' : γ → γ} (h : ∀ b, g' (f b) = f (g b)) (r : Rig β) :
    (r.through f).modifyBuses g' = (r.modifyBuses g).through f := by
  unfold modifyBuses through
  rw [h]

variable [Buses β] [Buses γ] (hf : Buses.Faithful f)

include hf

theorem read_through (r : Rig β) (a : Address) :
    (r.through f).read a = ((r.read a).1, (r.read a).2.through f) := by
  simp only [read, through, hf.read]

theorem readWord_through (r : Rig β) (a : Address) :
    (r.through f).readWord a = ((r.readWord a).1, (r.readWord a).2.through f) := by
  simp only [readWord, through, hf.readWord]

theorem write_through (r : Rig β) (a : Address) (v : UInt8) :
    (r.through f).write a v = (r.write a v).through f := modifyBuses_through (hf.write a v) r

theorem readRegister_through (r : Rig β) (a : UInt16) :
    (r.through f).readRegister a = ((r.readRegister a).1, (r.readRegister a).2.through f) := by
  simp only [readRegister, through, hf.readRegister]

theorem writeRegister_through (r : Rig β) (a : UInt16) (v : UInt8) :
    (r.through f).writeRegister a v = (r.writeRegister a v).through f :=
  modifyBuses_through (hf.writeRegister a v) r

theorem blockPointer_through (r : Rig β) (a : Address) :
    (r.through f).blockPointer a = ((r.blockPointer a).1, (r.blockPointer a).2.through f) := by
  simp only [blockPointer, through, hf.blockPointer]

theorem bytePointer_through (r : Rig β) (a : Address) :
    (r.through f).bytePointer a = ((r.bytePointer a).1, (r.bytePointer a).2.through f) := by
  simp only [bytePointer, through, hf.bytePointer]

theorem peek_through (r : Rig β) (p : Pointer) :
    (r.through f).peek p = ((r.peek p).1, (r.peek p).2.through f) := by
  simp only [peek, through, hf.peek]

theorem setWorkRamTaken_through (r : Rig β) (taken : Bool) :
    (r.through f).setWorkRamTaken taken = (r.setWorkRamTaken taken).through f :=
  modifyBuses_through (hf.setWorkRamTaken taken)
    (r.modifyActivity fun a => { a with workRamTaken := taken })

/-! ### Units -/

omit [Buses β] [Buses γ] hf in
theorem forUnit_through {mode : UnitMode} {step : Nat → UInt8 → Rig β → Rig β}
    {step' : Nat → UInt8 → Rig γ → Rig γ}
    (h : ∀ k o r, step' k o (r.through f) = (step k o r).through f) (r : Rig β) :
    (r.through f).forUnit mode step' = (r.forUnit mode step).through f :=
  List.foldl_hom (through f) fun r p => h p.2 p.1 r

theorem collectUnit_through (c : Channel) (r : Rig β) :
    (r.through f).collectUnit c = (r.collectUnit c).through f := by
  refine forUnit_through ?_ r
  intro k o r
  dsimp only
  rw [setWorkRamTaken_through hf, readRegister_through hf, write_through hf, spend_through]

theorem sendStraddling_through (c : Channel) (r : Rig β) :
    (r.through f).sendStraddling c = (r.sendStraddling c).through f := by
  refine forUnit_through ?_ r
  intro k o r
  dsimp only
  rw [setWorkRamTaken_through hf, read_through hf, writeRegister_through hf, spend_through]

theorem sendMapped_through (c : Channel) (r : Rig β) :
    (r.through f).sendMapped c = (r.sendMapped c).through f := by
  refine forUnit_through ?_ r
  intro k o r
  dsimp only
  rw [read_through hf, writeRegister_through hf, spend_through]

theorem sendDirect_through (c : Channel) (p : Pointer) (r : Rig β) :
    (r.through f).sendDirect c p = (r.sendDirect c p).through f := by
  refine forUnit_through ?_ r
  intro k o r
  dsimp only
  rw [peek_through hf]
  split
  · rw [modifyBuses_through (hf.setOpenBus _), writeRegister_through hf, spend_through]
  · rw [writeRegister_through hf, spend_through]

theorem refreshCache_through (r : Rig β) (i : ChannelId) :
    (r.through f).refreshCache i = (r.refreshCache i).through f := by
  cases h : (r.channel i).cache with
  | none =>
      rw [refreshCache_of_none h, refreshCache_of_none (r := r.through f) h, channel_through,
        bytePointer_through hf, setChannel_through]
  | some p => rw [refreshCache_of_some h, refreshCache_of_some (r := r.through f) h]

theorem pointSprites_through (c : Channel) (r : Rig β) :
    (r.through f).pointSprites c = (r.pointSprites c).through f := by
  unfold pointSprites
  rw [controller_through]
  split
  · exact modifyBuses_through (hf.setSpriteAddress _) r
  · rfl

theorem sendUnit_through (r : Rig β) (i : ChannelId) :
    (r.through f).sendUnit i = (r.sendUnit i).through f := by
  rw [sendUnit_eq, sendUnit_eq, refreshCache_through hf]
  generalize r.refreshCache i = r
  rw [channel_through]
  generalize r.channel i = c
  dsimp only
  rw [pointSprites_through hf]
  generalize r.pointSprites c = s
  split
  · rfl
  split
  · exact collectUnit_through hf c (s.setCache i none)
  split
  · exact sendStraddling_through hf c (s.setCache i none)
  rw [setWorkRamTaken_through hf]
  cases c.cache with
  | none => exact sendMapped_through hf c _
  | some p => exact congrArg (setCache · i _) (sendDirect_through hf c p _)

/-! ### Headers -/

theorem endTable_through (above : Bool) (r : Rig β) (i : ChannelId) :
    (r.through f).endTable i above = (r.endTable i above).through f := by
  unfold endTable
  dsimp only
  rw [channel_through]
  split
  · rw [spend_through, readWord_through hf, setChannel_through]
  · rfl

theorem fetchPlace_through (c : Channel) (r : Rig β) :
    (r.through f).fetchPlace c = ((r.fetchPlace c).1, (r.fetchPlace c).2.through f) := by
  unfold fetchPlace
  split
  · rw [spend_through, readWord_through hf]
  · rfl

theorem openEntry_through (r : Rig β) (i : ChannelId) (lines : UInt8) (repeats : Bool) :
    (r.through f).openEntry i lines repeats = (r.openEntry i lines repeats).through f := by
  rw [openEntry_eq, openEntry_eq, channel_through]
  dsimp only
  rw [fetchPlace_through hf]
  dsimp only
  rw [bytePointer_through hf, setChannel_through]

theorem fetchHeader_through (r : Rig β) (i : ChannelId) :
    (r.through f).fetchHeader i = ((r.fetchHeader i).1, (r.fetchHeader i).2.through f) := by
  rw [fetchHeader_eq, fetchHeader_eq, channel_through, controller_through]
  dsimp only
  rw [read_through hf]
  dsimp only
  generalize r.read _ = got
  rw [spend_through]
  cases Header.ofByte got.1 with
  | stop => exact congrArg (Prod.mk false) (endTable_through hf _ (got.2.spend slowAccess) i)
  | entry lines repeats =>
      exact congrArg (Prod.mk true) (openEntry_through hf (got.2.spend slowAccess) i _ _)

/-! ### Lines and frames -/

theorem stepLine_through (running : ChannelMask) (r : Rig β) (i : ChannelId) :
    stepLine running (r.through f) i =
      ((stepLine running r i).1, (stepLine running r i).2.through f) := by
  rw [stepLine_eq, stepLine_eq, channel_through, modifyChannel_through]
  dsimp only
  rw [fetchHeader_through hf]
  split
  · split <;> rfl
  · rfl

theorem prepareChannel_through (r : Rig β) (i : ChannelId) :
    (r.through f).prepareChannel i = (r.prepareChannel i).through f := by
  by_cases hi : i ∈ r.controller.active
  · have hrewound : (r.through f).rewound i = (r.rewound i).through f := rfl
    rw [prepareChannel_of_mem hi, prepareChannel_of_mem (r := r.through f) hi, hrewound,
      fetchHeader_through hf]
    dsimp only
    split <;> rfl
  · rw [prepareChannel_of_notMem hi, prepareChannel_of_notMem (r := r.through f) hi]
    rfl

theorem runLine_through (r : Rig β) (m : ChannelMask) :
    (r.through f).runLine m = ((r.runLine m).1, (r.runLine m).2.through f) := by
  have hturn (s : Rig β) (i : ChannelId) :
      (s.through f).sendInTurn i = (s.sendInTurn i).through f := by
    unfold sendInTurn
    rw [setWorkRamTaken_through hf]
    exact sendUnit_through hf ((s.setWorkRamTaken false).setCurrent i) i
  have hsent : (r.through f).sendLine m = (r.sendLine m).through f := by
    have hopened : (r.through f).openLine m = (r.openLine m).through f := rfl
    unfold sendLine
    rw [hopened]
    exact List.foldl_hom (through f) hturn
  have hstepped : ((r.sendLine m).through f).stepLines m =
      (((r.sendLine m).stepLines m).1, ((r.sendLine m).stepLines m).2.through f) :=
    @List.foldl_hom _ _ _ (fun s : ChannelMask × Rig β => (s.1, s.2.through f))
      (fun s i => stepLine s.1 s.2 i) (fun s i => stepLine s.1 s.2 i) m.toList (m, r.sendLine m)
      fun s i => stepLine_through hf s.1 s.2 i
  have hclosed (before : Activity) (running : ChannelMask) (s : Rig β) :
      (s.through f).closeLine before m running = (s.closeLine before m running).through f :=
    modifyBuses_through (hf.setWorkRamTaken before.workRamTaken) { s with controller := _ }
  refine Prod.ext ?_ ?_
  · rw [runLine_fst, runLine_fst, hsent, hstepped]
  · rw [runLine_snd, runLine_snd, runLine_fst, runLine_fst, hsent, hstepped]
    exact hclosed _ _ _

theorem beginFrame_through (r : Rig β) :
    (r.through f).beginFrame = r.beginFrame.through f := by
  have hopened : (r.through f).openFrame = r.openFrame.through f := by
    unfold openFrame
    dsimp only
    rw [controller_through]
    split <;> rfl
  have hprepared : (List.finRange 8).foldl prepareChannel (r.openFrame.through f) =
      ((List.finRange 8).foldl prepareChannel r.openFrame).through f :=
    List.foldl_hom (through f) (prepareChannel_through hf)
  rw [beginFrame_eq, beginFrame_eq, hopened, hprepared]
  rfl

end Rig

section

variable [Buses β] [Buses γ] (hf : Buses.Faithful f)

include hf

theorem Beam.fire_through (h : Host Beam β) : fire (h.through f) = (fire h).through f := by
  unfold fire
  rw [show (h.through f).schedule = h.schedule from rfl]
  cases h.schedule.event with
  | beginFrame => exact congrArg (Host.mk · _) (h.rig.beginFrame_through hf)
  | runLine =>
      have hran := congrArg Prod.snd (h.rig.runLine_through hf h.rig.controller.active)
      dsimp only
      rw [show (h.through f).rig.controller.active = h.rig.controller.active from rfl]
      split
      · rfl
      · exact congrArg (Host.mk · _) hran
  | endLine => rfl

/-! ### General transfers -/

namespace Transfer

variable (t : Transfer)

theorem deliver_through (route : Route) (a : UInt16) (o v : UInt8) (taken : Bool) (r : Rig β) :
    route.deliver a o v taken (r.through f) = (route.deliver a o v taken r).through f := by
  cases route with
  | ordinary => exact Rig.writeRegister_through hf r a v
  | sprite => exact Rig.modifyBuses_through (hf.writeSprite v) r
  | video high remapped => exact Rig.modifyBuses_through (hf.writeVideo high remapped v) r
  | videoPair remapped =>
      unfold Route.deliver
      dsimp only
      split
      · rw [Rig.modifyBuses_through (hf.setOpenBus v)]
        exact Rig.modifyBuses_through (hf.writeVideo _ remapped v) _
      · exact Rig.modifyBuses_through (hf.writeVideo _ remapped v) r
  | colour => exact Rig.modifyBuses_through (hf.writeColour v) r
  | workRam =>
      unfold Route.deliver
      dsimp only
      split
      · rfl
      · exact Rig.modifyBuses_through (hf.writeWorkRam v) r

theorem settleStretch_through (source : Source) (taken : Bool) (left : Nat) (r : Rig β) :
    t.settleStretch source taken left (r.through f) =
      ((t.settleStretch source taken left r).1,
        (t.settleStretch source taken left r).2.through f) := by
  have hremaps : Buses.remapsVideo ((r.setWorkRamTaken taken).through f).buses =
      Buses.remapsVideo (r.setWorkRamTaken taken).buses := hf.remapsVideo _
  unfold settleStretch
  rw [Rig.setWorkRamTaken_through hf]
  dsimp only
  rw [hremaps]

theorem openStretch_through (o : UInt16) (left : Nat) (r : Rig β) :
    t.openStretch o left (r.through f) =
      ((t.openStretch o left r).1, (t.openStretch o left r).2.through f) := by
  unfold openStretch
  rw [Rig.blockPointer_through hf]
  exact settleStretch_through hf t _ _ left _

theorem currentStretch_through (s : Stretch) (r : Rig β) :
    t.currentStretch s (r.through f) =
      ((t.currentStretch s r).1, (t.currentStretch s r).2.through f) := by
  unfold currentStretch
  split
  · exact openStretch_through hf t _ blockSize r
  · rfl

theorem fetch_through (source : Source) (position : UInt16) (r : Rig β) :
    t.fetch source position (r.through f) =
      ((t.fetch source position r).1, (t.fetch source position r).2.through f) := by
  cases source with
  | mapped => exact Rig.read_through hf r _
  | block base => exact Rig.peek_through hf r _
  | decoder => rfl

theorem moveByte_through (progress : Progress) (r : Rig β) :
    t.moveByte progress (r.through f) =
      ((t.moveByte progress r).1, (t.moveByte progress r).2.through f) := by
  cases progress with
  | idle => rfl
  | collecting place =>
      unfold moveByte collectByte
      dsimp only
      rw [Rig.channel_through]
      split
      · rw [Rig.setWorkRamTaken_through hf, Rig.readRegister_through hf, Rig.write_through hf]
      · rw [Rig.readRegister_through hf, Rig.write_through hf]
  | sending place position s =>
      unfold moveByte sendByte
      dsimp only
      rw [currentStretch_through hf]
      dsimp only
      rw [fetch_through hf]
      dsimp only
      rw [deliver_through hf]

theorem begin_through (decoded : Bool) (r : Rig β) :
    t.begin decoded (r.through f) = ((t.begin decoded r).1, (t.begin decoded r).2.through f) := by
  unfold Transfer.begin
  split
  · unfold beginCollecting
    dsimp only
    split
    · rfl
    · rw [Rig.setWorkRamTaken_through hf]
  · unfold beginSending
    dsimp only
    split
    · rw [settleStretch_through hf]
    · rw [openStretch_through hf]

end Transfer

namespace Host

omit [Buses β] [Buses γ] hf in
theorem takeDecoderReady_through {κ : Type} (f : β → γ) (h : Host κ β) :
    (h.through f).takeDecoderReady = (h.takeDecoderReady.1, h.takeDecoderReady.2.through f) := by
  unfold takeDecoderReady
  dsimp only
  rw [show (h.through f).rig.controller = h.rig.controller from rfl]
  split <;> rfl

theorem prepare_through (h : Host Beam β) (i : ChannelId) :
    (h.through f).prepare i =
      ((h.prepare i).1, (h.prepare i).2.1, (h.prepare i).2.2.through f) := by
  have hchannel : (h.through f).rig.channel i = h.rig.channel i := rfl
  have hstart : (h.through f).noteStart i = (h.noteStart i).through f := rfl
  unfold prepare
  dsimp only
  rw [hchannel, hstart, takeDecoderReady_through]
  split
  · rfl
  · rw [show (((h.noteStart i).takeDecoderReady.2.through f).spend slowAccess).rig =
      ((h.noteStart i).takeDecoderReady.2.spend slowAccess).rig.through f from rfl,
      Transfer.begin_through hf]
    rfl

theorem settleWithin_through (limit : Nat) (h : Host Beam β) :
    settleWithin limit (h.through f) = (settleWithin limit h).through f := by
  induction limit generalizing h with
  | zero => rfl
  | succ limit ih =>
      unfold settleWithin
      rw [show (h.through f).isDue = h.isDue from rfl]
      split
      · rw [show Schedule.fire (h.through f) = (Schedule.fire h).through f from
          Beam.fire_through hf h, ih]
      · rfl

theorem passByte_through (h : Host Beam β) (i : ChannelId) :
    (h.through f).passByte i = ((h.passByte i).1, (h.passByte i).2.through f) := by
  have hsettled : ((h.through f).spend slowAccess).settle =
      (h.spend slowAccess).settle.through f :=
    settleWithin_through hf settleLimit (h.spend slowAccess)
  unfold passByte
  rw [hsettled]
  rfl

theorem moveBytes_through (t : Transfer) (n : Nat) (progress : Progress) (h : Host Beam β) :
    moveBytes t n progress (h.through f) =
      ((moveBytes t n progress h).1, (moveBytes t n progress h).2.through f) := by
  induction n generalizing progress h with
  | zero => rfl
  | succ n ih =>
      have hmoved : t.moveByte progress (h.through f).rig =
          ((t.moveByte progress h.rig).1, (t.moveByte progress h.rig).2.through f) :=
        t.moveByte_through hf progress h.rig
      have hdone : (h.through f).byteDone t progress = (h.byteDone t progress).through f := by
        unfold byteDone
        rw [hmoved]
        rfl
      rw [moveBytes_succ, moveBytes_succ, hdone, passByte_through hf, hmoved]
      dsimp only
      split
      · exact ih _ _
      · rfl

theorem conclude_through (idle done : Bool) (h : Host Beam β) :
    (h.through f).conclude idle done = (h.conclude idle done).through f := by
  have hended (h : Host Beam β) : (h.through f).noteEnd = h.noteEnd.through f := by
    have hsaid := Rig.setWorkRamTaken_through hf
      (h.rig.modifyActivity fun a => { a with inTransfer := false, busy := false }) false
    exact congrArg (fun r : Rig γ =>
      (⟨r.modifyActivity fun a => { a with current := none }, h.schedule⟩ : Host Beam γ)) hsaid
  have hdelayed : (h.through f).delayInterrupt = h.delayInterrupt.through f := by
    have hpending : Schedule.interruptPending γ h.schedule =
      Schedule.interruptPending β h.schedule := rfl
    have hposition : Schedule.interruptPosition γ h.schedule =
      Schedule.interruptPosition β h.schedule := rfl
    unfold delayInterrupt
    rw [show (h.through f).schedule = h.schedule from rfl, hpending, hposition]
    split <;> rfl
  unfold conclude
  split
  · rw [hdelayed, hended]
  · exact hended h

/-- A transfer runs through a faithful map. -/
theorem runChannel_through (h : Host Beam β) (i : ChannelId) :
    (h.through f).runChannel i = ((h.runChannel i).1, (h.runChannel i).2.through f) := by
  rw [runChannel_eq, runChannel_eq, prepare_through hf]
  dsimp only
  rw [moveBytes_through hf]
  dsimp only
  rw [conclude_through hf]
  rfl

theorem startChannels_through (h : Host Beam β) (m : ChannelMask) :
    (h.through f).startChannels m = (h.startChannels m).through f := by
  have hran : m.toList.foldl (fun h i => (h.runChannel i).2)
        ((h.spend h.rig.controller.settings.syncDelay).through f) =
      (m.toList.foldl (fun h i => (h.runChannel i).2)
        (h.spend h.rig.controller.settings.syncDelay)).through f :=
    List.foldl_hom (through f) fun h i => congrArg Prod.snd (h.runChannel_through hf i)
  unfold startChannels
  rw [show (h.through f).rig.controller = h.rig.controller from rfl]
  split
  · rfl
  · exact hran

theorem writeRegister_through (h : Host Beam β) (a : UInt16) (v : UInt8) :
    (h.through f).writeRegister a v = (h.writeRegister a v).through f := by
  unfold writeRegister
  split
  · exact startChannels_through hf h ⟨v⟩
  split
  · rfl
  split
  · rfl
  split <;> rfl

end Host

end

end DmaController
