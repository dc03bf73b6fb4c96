import DmaController.Proofs.Transfer.Collect

/-! # Transfers that leave the stream decoder out

What is a controller with a stream decoder, as long as no transfer takes its bytes from there?
`withoutDecoder` takes the decoder out: it is not fitted any more, and its ready register is zero.
Everything a rig does commutes with that, byte by byte and in lines and frames; the one operation
that looks at the decoder is the preparation of a general transfer.  So if events take no notice of
the decoder either (`BlindToDecoder`), a transfer that is not decoded runs as it would without the
decoder (`runChannel_withoutDecoder`).

A decoder that is ready makes the address of a fixed channel move, and so it does for a transfer
from the registers to the A-bus, which takes nothing out of the decoder.  Such a transfer then
writes a row of places in memory instead of one (`collecting_beside_decoder`). -/

namespace DmaController

/-! ### Taking the decoder out -/

/-- The controller without its stream decoder. -/
def Controller.withoutDecoder (k : Controller) : Controller :=
  { k with
    settings := { k.settings with decoderFitted := false }
    decoder := { k.decoder with ready := 0 } }

/-- The rig without its stream decoder. -/
def Rig.withoutDecoder {β : Type} (r : Rig β) : Rig β :=
  { r with controller := r.controller.withoutDecoder }

/-- The host without its stream decoder. -/
def Host.withoutDecoder {κ β : Type} (h : Host κ β) : Host κ β :=
  { h with rig := h.rig.withoutDecoder }

/-- Events that take no notice of the decoder. -/
def BlindToDecoder (κ β : Type) [Schedule κ β] : Prop :=
  ∀ h : Host κ β, Schedule.fire h.withoutDecoder = (Schedule.fire h).withoutDecoder

/-! ### Lines and frames -/

namespace Rig

variable {β : Type}

@[simp] theorem channel_withoutDecoder (r : Rig β) (i : ChannelId) :
    r.withoutDecoder.channel i = r.channel i := rfl

theorem forUnit_withoutDecoder {mode : UnitMode} {step : Nat → UInt8 → Rig β → Rig β}
    (hstep : ∀ k o r, step k o r.withoutDecoder = (step k o r).withoutDecoder) (r : Rig β) :
    r.withoutDecoder.forUnit mode step = (r.forUnit mode step).withoutDecoder :=
  List.foldl_hom withoutDecoder fun r p => hstep p.2 p.1 r

variable [Buses β]

theorem collectUnit_withoutDecoder (c : Channel) (r : Rig β) :
    r.withoutDecoder.collectUnit c = (r.collectUnit c).withoutDecoder := by
  refine forUnit_withoutDecoder ?_ r
  intro k o r
  rfl

theorem sendStraddling_withoutDecoder (c : Channel) (r : Rig β) :
    r.withoutDecoder.sendStraddling c = (r.sendStraddling c).withoutDecoder := by
  refine forUnit_withoutDecoder ?_ r
  intro k o r
  rfl

theorem sendMapped_withoutDecoder (c : Channel) (r : Rig β) :
    r.withoutDecoder.sendMapped c = (r.sendMapped c).withoutDecoder := by
  refine forUnit_withoutDecoder ?_ r
  intro k o r
  rfl

theorem sendDirect_withoutDecoder (c : Channel) (p : Pointer) (r : Rig β) :
    r.withoutDecoder.sendDirect c p = (r.sendDirect c p).withoutDecoder := by
  refine forUnit_withoutDecoder ?_ r
  intro k o r
  dsimp only
  split <;> rfl

theorem refreshCache_withoutDecoder (r : Rig β) (i : ChannelId) :
    r.withoutDecoder.refreshCache i = (r.refreshCache i).withoutDecoder := by
  cases h : (r.channel i).cache with
  | none =>
      rw [refreshCache_of_none h, refreshCache_of_none (r := r.withoutDecoder) h]
      rfl
  | some p => rw [refreshCache_of_some h, refreshCache_of_some (r := r.withoutDecoder) h]

theorem pointSprites_withoutDecoder (c : Channel) (r : Rig β) :
    r.withoutDecoder.pointSprites c = (r.pointSprites c).withoutDecoder := by
  unfold pointSprites
  rw [show r.withoutDecoder.controller.settings.resetsSpriteAddress =
    r.controller.settings.resetsSpriteAddress from rfl]
  split <;> rfl

theorem sendUnit_withoutDecoder (r : Rig β) (i : ChannelId) :
    r.withoutDecoder.sendUnit i = (r.sendUnit i).withoutDecoder := by
  rw [sendUnit_eq, sendUnit_eq, refreshCache_withoutDecoder]
  generalize r.refreshCache i = r
  rw [channel_withoutDecoder]
  generalize r.channel i = c
  dsimp only
  rw [pointSprites_withoutDecoder]
  generalize r.pointSprites c = s
  split
  · rfl
  split
  · exact collectUnit_withoutDecoder c (s.setCache i none)
  split
  · exact sendStraddling_withoutDecoder c (s.setCache i none)
  have hsaid : s.withoutDecoder.setWorkRamTaken (isWorkRam c.lineBank c.lineOffset) =
      (s.setWorkRamTaken (isWorkRam c.lineBank c.lineOffset)).withoutDecoder := rfl
  rw [hsaid]
  cases c.cache with
  | none => exact sendMapped_withoutDecoder c _
  | some p => exact congrArg (setCache · i _) (sendDirect_withoutDecoder c p _)

theorem fetchPlace_withoutDecoder (c : Channel) (r : Rig β) :
    r.withoutDecoder.fetchPlace c = ((r.fetchPlace c).1, (r.fetchPlace c).2.withoutDecoder) := by
  unfold fetchPlace
  split <;> rfl

theorem endTable_withoutDecoder (above : Bool) (r : Rig β) (i : ChannelId) :
    r.withoutDecoder.endTable i above = (r.endTable i above).withoutDecoder := by
  unfold endTable
  dsimp only
  rw [channel_withoutDecoder]
  split <;> rfl

theorem openEntry_withoutDecoder (r : Rig β) (i : ChannelId) (lines : UInt8) (repeats : Bool) :
    r.withoutDecoder.openEntry i lines repeats =
      (r.openEntry i lines repeats).withoutDecoder := by
  rw [openEntry_eq, openEntry_eq, channel_withoutDecoder]
  dsimp only
  rw [fetchPlace_withoutDecoder]
  rfl

theorem fetchHeader_withoutDecoder (r : Rig β) (i : ChannelId) :
    r.withoutDecoder.fetchHeader i =
      ((r.fetchHeader i).1, (r.fetchHeader i).2.withoutDecoder) := by
  rw [fetchHeader_eq, fetchHeader_eq, channel_withoutDecoder]
  dsimp only
  generalize Address.of _ _ = a
  rw [show (r.withoutDecoder.read a).1 = (r.read a).1 from rfl]
  cases Header.ofByte (r.read a).1 with
  | stop =>
      exact congrArg (Prod.mk false) (endTable_withoutDecoder _ ((r.read a).2.spend slowAccess) i)
  | entry lines repeats =>
      exact congrArg (Prod.mk true) (openEntry_withoutDecoder ((r.read a).2.spend slowAccess) i _ _)

theorem stepLine_withoutDecoder (running : ChannelMask) (r : Rig β) (i : ChannelId) :
    stepLine running r.withoutDecoder i =
      ((stepLine running r i).1, (stepLine running r i).2.withoutDecoder) := by
  have hnext : r.withoutDecoder.modifyChannel i Channel.nextLine =
      (r.modifyChannel i Channel.nextLine).withoutDecoder := rfl
  rw [stepLine_eq, stepLine_eq, channel_withoutDecoder, hnext]
  dsimp only
  rw [fetchHeader_withoutDecoder]
  split
  · split <;> rfl
  · rfl

theorem prepareChannel_withoutDecoder (r : Rig β) (i : ChannelId) :
    r.withoutDecoder.prepareChannel i = (r.prepareChannel i).withoutDecoder := by
  have hrewound : r.withoutDecoder.rewound i = (r.rewound i).withoutDecoder := rfl
  by_cases hi : i ∈ r.controller.active
  · rw [prepareChannel_of_mem hi, prepareChannel_of_mem (r := r.withoutDecoder) hi, hrewound,
      fetchHeader_withoutDecoder]
    dsimp only
    split <;> rfl
  · rw [prepareChannel_of_notMem hi, prepareChannel_of_notMem (r := r.withoutDecoder) hi]
    rfl

theorem runLine_withoutDecoder (r : Rig β) (m : ChannelMask) :
    r.withoutDecoder.runLine m = ((r.runLine m).1, (r.runLine m).2.withoutDecoder) := by
  have hturn : ∀ (s : Rig β) (i : ChannelId),
      s.withoutDecoder.sendInTurn i = (s.sendInTurn i).withoutDecoder :=
    fun s i => sendUnit_withoutDecoder ((s.setWorkRamTaken false).setCurrent i) i
  have hsent : r.withoutDecoder.sendLine m = (r.sendLine m).withoutDecoder := by
    have hopened : r.withoutDecoder.openLine m = (r.openLine m).withoutDecoder := rfl
    unfold sendLine
    rw [hopened]
    exact List.foldl_hom withoutDecoder hturn
  have hstepped : (r.sendLine m).withoutDecoder.stepLines m =
      (((r.sendLine m).stepLines m).1, ((r.sendLine m).stepLines m).2.withoutDecoder) :=
    @List.foldl_hom _ _ _ (fun s : ChannelMask × Rig β => (s.1, s.2.withoutDecoder))
      (fun s i => stepLine s.1 s.2 i) (fun s i => stepLine s.1 s.2 i) m.toList (m, r.sendLine m)
      fun s i => stepLine_withoutDecoder s.1 s.2 i
  refine Prod.ext ?_ ?_
  · rw [runLine_fst, runLine_fst, hsent, hstepped]
  · rw [runLine_snd, runLine_snd, runLine_fst, runLine_fst, hsent, hstepped]
    rfl

theorem beginFrame_withoutDecoder (r : Rig β) :
    r.withoutDecoder.beginFrame = r.beginFrame.withoutDecoder := by
  have hopened : r.withoutDecoder.openFrame = r.openFrame.withoutDecoder := by
    unfold openFrame
    dsimp only
    rw [show r.withoutDecoder.controller.enabled = r.controller.enabled from rfl]
    split <;> rfl
  have hprepared : (List.finRange 8).foldl prepareChannel r.openFrame.withoutDecoder =
      ((List.finRange 8).foldl prepareChannel r.openFrame).withoutDecoder :=
    List.foldl_hom withoutDecoder prepareChannel_withoutDecoder
  rw [beginFrame_eq, beginFrame_eq, hopened, hprepared]
  rfl

end Rig

theorem Beam.blindToDecoder {β : Type} [Buses β] : BlindToDecoder Beam β := by
  intro h
  show fire h.withoutDecoder = (fire h).withoutDecoder
  unfold fire
  rw [show h.withoutDecoder.schedule = h.schedule from rfl]
  cases h.schedule.event with
  | beginFrame => exact congrArg (Host.mk · _) h.rig.beginFrame_withoutDecoder
  | runLine =>
      have hran := congrArg Prod.snd (h.rig.runLine_withoutDecoder h.rig.controller.active)
      dsimp only
      rw [show h.withoutDecoder.rig.controller.active = h.rig.controller.active from rfl]
      split
      · rfl
      · exact congrArg (Host.mk · _) hran
  | endLine => rfl

/-! ### General transfers -/

namespace Transfer

variable {β : Type} [Buses β]

variable (t : Transfer)

theorem currentStretch_withoutDecoder (s : Stretch) (r : Rig β) :
    t.currentStretch s r.withoutDecoder =
      ((t.currentStretch s r).1, (t.currentStretch s r).2.withoutDecoder) := by
  unfold currentStretch
  split <;> rfl

theorem deliver_withoutDecoder (route : Route) (a : UInt16) (o v : UInt8) (taken : Bool)
    (r : Rig β) :
    route.deliver a o v taken r.withoutDecoder = (route.deliver a o v taken r).withoutDecoder := by
  cases route with
  | videoPair remapped =>
      unfold Route.deliver
      dsimp only
      split <;> rfl
  | workRam => cases taken <;> rfl
  | _ => rfl

theorem fetch_withoutDecoder (source : Source) (position : UInt16) (r : Rig β) :
    t.fetch source position r.withoutDecoder =
      ((t.fetch source position r).1, (t.fetch source position r).2.withoutDecoder) := by
  cases source <;> rfl

theorem collectByte_withoutDecoder (place : UnitCursor) (r : Rig β) :
    t.collectByte place r.withoutDecoder = (t.collectByte place r).withoutDecoder := by
  unfold collectByte
  dsimp only
  split <;> rfl

theorem sendByte_withoutDecoder (place : UnitCursor) (position : UInt16) (s : Stretch)
    (r : Rig β) :
    t.sendByte place position s r.withoutDecoder =
      (t.sendByte place position s r).withoutDecoder := by
  unfold sendByte
  rw [fetch_withoutDecoder]
  exact deliver_withoutDecoder _ _ _ _ _ _

/-- A byte moves as it does without the decoder, wherever it comes from: the decoded bytes are
still there. -/
theorem moveByte_withoutDecoder (progress : Progress) (r : Rig β) :
    t.moveByte progress r.withoutDecoder =
      ((t.moveByte progress r).1, (t.moveByte progress r).2.withoutDecoder) := by
  cases progress with
  | idle => rfl
  | collecting place =>
      unfold moveByte
      dsimp only
      rw [collectByte_withoutDecoder]
  | sending place position s =>
      unfold moveByte
      dsimp only
      rw [currentStretch_withoutDecoder]
      dsimp only
      rw [sendByte_withoutDecoder]

theorem begin_withoutDecoder (decoded : Bool) (r : Rig β) :
    t.begin decoded r.withoutDecoder =
      ((t.begin decoded r).1, (t.begin decoded r).2.withoutDecoder) := by
  unfold Transfer.begin
  split
  · unfold beginCollecting
    dsimp only
    split <;> rfl
  · unfold beginSending
    split <;> rfl

end Transfer

namespace Host

variable {κ β : Type}

@[simp] theorem rig_withoutDecoder (h : Host κ β) :
    h.withoutDecoder.rig = h.rig.withoutDecoder := rfl

theorem isDecoded_withoutDecoder (h : Host κ β) (i : ChannelId) :
    h.withoutDecoder.isDecoded i = false := by
  show (((h.rig.channel i).control.fixed && false) && _) = false
  rw [Bool.and_false, Bool.false_and]

/-- With the decoder ready, a channel that is to stay where it is moves on behind the first byte. -/
theorem addressStep_of_decoded {h : Host κ β} {i : ChannelId}
    (hreverse : (h.rig.channel i).control.reverse = true) (hdecoded : h.isDecoded i = true) :
    h.withoutDecoder.addressStep i = .hold ∧ (h.addressStep i).word ≠ 0 := by
  have hmoving := Channel.feedsWorkRamItself_of_reverse hreverse
  have hmoving' : (h.withoutDecoder.rig.channel i).feedsWorkRamItself = false := hmoving
  have hfixed : (h.withoutDecoder.rig.channel i).control.fixed = true := by
    rw [isDecoded, Bool.and_assoc, Bool.and_eq_true] at hdecoded
    exact hdecoded.1
  constructor
  · rw [addressStep, hmoving', isDecoded_withoutDecoder, Control.step, hfixed]
    rfl
  · rw [addressStep, hmoving, hdecoded, if_neg Bool.false_ne_true, if_pos rfl, Control.direction]
    cases (h.rig.channel i).control.decrement <;> decide

/-- Looking at the decoder leaves nothing behind that is there without it. -/
theorem takeDecoderReady_withoutDecoder (h : Host κ β) :
    h.withoutDecoder.takeDecoderReady.2 = h.takeDecoderReady.2.withoutDecoder := by
  have hout : h.withoutDecoder.takeDecoderReady.2 = h.withoutDecoder := rfl
  rw [hout]
  by_cases hfitted : h.rig.controller.settings.decoderFitted = true
  · rw [takeDecoderReady_of_fitted hfitted]
    rfl
  · unfold takeDecoderReady
    dsimp only
    rw [if_neg hfitted]

variable [Buses β]

/-- A transfer that is not decoded is prepared as it is without the decoder. -/
theorem prepare_withoutDecoder {h : Host κ β} {i : ChannelId} (hdecoder : h.isDecoded i = false) :
    h.withoutDecoder.prepare i =
      ((h.prepare i).1, (h.prepare i).2.1, (h.prepare i).2.2.withoutDecoder) := by
  have hready : (h.withoutDecoder.noteStart i).takeDecoderReady.2.spend slowAccess =
      ((h.noteStart i).takeDecoderReady.2.spend slowAccess).withoutDecoder :=
    congrArg (fun s : Host κ β => s.spend slowAccess)
      (h.noteStart i).takeDecoderReady_withoutDecoder
  have hchannel : h.withoutDecoder.rig.channel i = h.rig.channel i := rfl
  unfold prepare
  dsimp only
  rw [isDecoded_eq, isDecoded_eq, hdecoder, isDecoded_withoutDecoder, hchannel, hready]
  split
  · rfl
  · rw [rig_withoutDecoder, Transfer.begin_withoutDecoder]
    rfl

variable [Schedule κ β]

theorem conclude_withoutDecoder (idle done : Bool) (h : Host κ β) :
    h.withoutDecoder.conclude idle done = (h.conclude idle done).withoutDecoder := by
  unfold conclude delayInterrupt
  split
  · rw [show h.withoutDecoder.schedule = h.schedule from rfl]
    split <;> rfl
  · rfl

section

variable (hblind : BlindToDecoder κ β)

include hblind

omit [Buses β] in
theorem settleWithin_withoutDecoder (limit : Nat) (h : Host κ β) :
    settleWithin limit h.withoutDecoder = (settleWithin limit h).withoutDecoder := by
  induction limit generalizing h with
  | zero => rfl
  | succ limit ih =>
      unfold settleWithin
      rw [show h.withoutDecoder.isDue = h.isDue from rfl]
      split
      · rw [hblind, ih]
      · rfl

omit [Buses β] in
theorem passByte_withoutDecoder (h : Host κ β) (i : ChannelId) :
    h.withoutDecoder.passByte i = ((h.passByte i).1, (h.passByte i).2.withoutDecoder) := by
  have hsettled : (h.withoutDecoder.spend slowAccess).settle =
      (h.spend slowAccess).settle.withoutDecoder :=
    settleWithin_withoutDecoder hblind settleLimit (h.spend slowAccess)
  unfold passByte
  rw [hsettled]
  rfl

/-- The bytes of a transfer move as they do without the decoder. -/
theorem moveBytes_withoutDecoder (t : Transfer) (n : Nat) (progress : Progress) (h : Host κ β) :
    moveBytes t n progress h.withoutDecoder =
      ((moveBytes t n progress h).1, (moveBytes t n progress h).2.withoutDecoder) := by
  induction n generalizing progress h with
  | zero => rfl
  | succ n ih =>
      have hmoved := t.moveByte_withoutDecoder progress h.rig
      have hdone : h.withoutDecoder.byteDone t progress =
          (h.byteDone t progress).withoutDecoder := by
        unfold byteDone
        rw [rig_withoutDecoder, hmoved]
        rfl
      rw [moveBytes_succ, moveBytes_succ, hdone, passByte_withoutDecoder hblind,
        rig_withoutDecoder, hmoved]
      dsimp only
      split
      · exact ih _ _
      · rfl

/-- A transfer that takes nothing out of the decoder and does not go by it runs as it would without
the decoder. -/
theorem runChannel_withoutDecoder {h : Host κ β} {i : ChannelId}
    (hdecoder : h.isDecoded i = false) :
    h.withoutDecoder.runChannel i = ((h.runChannel i).1, (h.runChannel i).2.withoutDecoder) := by
  have hchannel : h.withoutDecoder.rig.channel i = h.rig.channel i := rfl
  rw [runChannel_eq, runChannel_eq, prepare_withoutDecoder hdecoder, hchannel]
  dsimp only
  rw [moveBytes_withoutDecoder hblind]
  dsimp only
  rw [conclude_withoutDecoder]

end

end Host

/-! ### Collecting beside the decoder -/

/-- The place in memory to which a request writes. -/
def BusCall.wrote? : BusCall → Option Address
  | write a _ => some a
  | _ => none

theorem BusCall.wrote?_of_access? (call : BusCall) : call.access?.bind wrote? = call.wrote? := by
  cases call <;> rfl

/-- A row of bytes is written to a row of places. -/
theorem Channel.collection_wrote (c : Channel) (a : AddressStep) (got : List Collected) :
    (c.collection a got).filterMap BusCall.wrote? =
      (List.range got.length).map fun k => Address.of c.bank (c.offsetAt a k) := by
  rw [collection, List.filterMap_flatMap]
  have hbyte (byte : Collected × Nat) :
      (c.collecting a byte.2 byte.1).filterMap BusCall.wrote? =
        [Address.of c.bank (c.offsetAt a byte.2)] := rfl
  simp only [hbyte]
  rw [← List.map_eq_flatMap, List.range_eq_range', ← List.zipIdx_map_snd 0 got, List.map_map]
  rfl

/-- Two runs of a transfer of channel `i` are alike in their answer, in all that was asked of the
buses, in the time counted and in the channel they leave. -/
structure Host.RunsAlike {κ β : Type} (i : ChannelId) (x y : Bool × Host κ β) : Prop where
  done : x.1 = y.1
  buses : x.2.rig.buses = y.2.rig.buses
  cycles : x.2.rig.cycles = y.2.rig.cycles
  channel : x.2.rig.channel i = y.2.rig.channel i

section

variable {κ β : Type} [Buses β] [Schedule κ (Traced β)] {h : Host κ (Traced β)} {i : ChannelId}

/-- A collecting transfer that is not interrupted writes to a row of places. -/
theorem Host.runChannel_wrote (hreverse : (h.rig.channel i).control.reverse = true)
    (hquiet : h.Quiet (slowAccess + slowAccess * (h.rig.channel i).length))
    (hrest : i ∉ h.rig.controller.activity.ranInside) :
    Traced.Calls BusCall.wrote? h.rig.buses (h.runChannel i).2.rig.buses
        ((List.range (h.rig.channel i).length).map fun k =>
          Address.of (h.rig.channel i).bank ((h.rig.channel i).offsetAt (h.addressStep i) k)) ∧
      ((h.runChannel i).2.rig.channel i).address =
        (h.rig.channel i).offsetAt (h.addressStep i) (h.rig.channel i).length := by
  obtain ⟨-, ⟨got, hlength, hcalls, -⟩, hchannel⟩ :=
    h.runChannel_collecting i hreverse hquiet hrest
  have hwrote := hcalls.filterMap BusCall.wrote?_of_access?
  rw [Channel.collection_wrote, hlength] at hwrote
  exact ⟨hwrote, congrArg Channel.address hchannel⟩

/-- A collecting transfer with the decoder ready does not run as it would without it. -/
theorem Host.not_runsAlike_of_decoded (hreverse : (h.rig.channel i).control.reverse = true)
    (hquiet : h.Quiet (slowAccess + slowAccess * (h.rig.channel i).length))
    (hrest : i ∉ h.rig.controller.activity.ranInside) (hdecoded : h.isDecoded i = true) :
    ¬ RunsAlike i (h.withoutDecoder.runChannel i) (h.runChannel i) := by
  intro halike
  obtain ⟨hhold, hmoves⟩ := addressStep_of_decoded hreverse hdecoded
  obtain ⟨hwrote, haddress⟩ := runChannel_wrote hreverse hquiet hrest
  obtain ⟨hwrote', haddress'⟩ := runChannel_wrote (h := h.withoutDecoder) hreverse hquiet hrest
  have hlength := (h.rig.channel i).length_pos
  have hchannel : h.withoutDecoder.rig.channel i = h.rig.channel i := rfl
  rw [hchannel, hhold] at hwrote' haddress'
  -- One byte further on, the two addresses have parted: that is where the second byte lies, or
  -- where the transfer has ended.
  have hparted : (h.rig.channel i).offsetAt (h.addressStep i) 1 =
      (h.rig.channel i).offsetAt .hold 1 := by
    by_cases hone : (h.rig.channel i).length = 1
    · rw [hone] at haddress haddress'
      rw [← haddress, ← haddress', halike.channel]
    · have hsame := (halike.buses ▸ hwrote').unique hwrote
      have hsecond := congrArg (·[1]?) hsame
      have hmore : 1 < (h.rig.channel i).length := by omega
      simp only [List.getElem?_map, List.getElem?_range hmore, Option.map_some,
        Option.some.injEq] at hsecond
      have hoffset := congrArg Address.offset hsecond
      rw [Address.offset_of, Address.offset_of] at hoffset
      exact hoffset.symm
  apply hmoves
  have hword : 1 * (h.addressStep i).word = 1 * AddressStep.hold.word :=
    (UInt16.add_right_inj _).mp hparted
  rwa [UInt16.one_mul, UInt16.one_mul] at hword

end

/-- A transfer from the registers to the A-bus that finds no decoder ready for its channel, or no
channel with a fixed address, runs as it would without the decoder, whatever happens between its
bytes.  One that is not interrupted writes its bytes to a row of places, and it runs as it would
without the decoder exactly if it does not find it ready: a fixed address then moves, although no
byte comes out of the decoder. -/
theorem collecting_beside_decoder {κ β : Type} [Buses β] [Schedule κ (Traced β)]
    (hblind : BlindToDecoder κ (Traced β)) (h : Host κ (Traced β)) (i : ChannelId)
    (hreverse : (h.rig.channel i).control.reverse = true) :
    (h.isDecoded i = false → h.withoutDecoder.runChannel i =
        ((h.runChannel i).1, (h.runChannel i).2.withoutDecoder)) ∧
      (h.Quiet (slowAccess + slowAccess * (h.rig.channel i).length) →
        i ∉ h.rig.controller.activity.ranInside →
        Traced.Calls BusCall.wrote? h.rig.buses (h.runChannel i).2.rig.buses
            ((List.range (h.rig.channel i).length).map fun k =>
              Address.of (h.rig.channel i).bank
                ((h.rig.channel i).offsetAt (h.addressStep i) k)) ∧
          (Host.RunsAlike i (h.withoutDecoder.runChannel i) (h.runChannel i) ↔
            h.isDecoded i = false)) := by
  have hsame (hdecoder : h.isDecoded i = false) : h.withoutDecoder.runChannel i =
      ((h.runChannel i).1, (h.runChannel i).2.withoutDecoder) :=
    Host.runChannel_withoutDecoder hblind hdecoder
  refine ⟨hsame, fun hquiet hrest => ⟨(Host.runChannel_wrote hreverse hquiet hrest).1, ?_, ?_⟩⟩
  · intro halike
    cases hdecoded : h.isDecoded i with
    | false => rfl
    | true =>
        exact absurd halike (Host.not_runsAlike_of_decoded hreverse hquiet hrest hdecoded)
  · intro hdecoder
    rw [hsame hdecoder]
    exact ⟨rfl, rfl, rfl, rfl⟩

/-! ### A port read again and again -/

section

attribute [local instance] Recorder.plain

/-- Channel 4 is to read a register three times for the same place in work RAM, beside a decoder
with `ready` in its register. -/
def sampling (ready : UInt8) : Host Beam (Traced Recorder) where
  rig :=
    let toPlace : Channel := { Channel.powerOn with
      control := .ofByte 0x88, port := 0x39, bank := 0x7E, address := 0x1000, count := 3 }
    let fitted := Controller.powerOn { Settings.standard with decoderFitted := true }
    { controller := (fitted.writeReady ready).setChannel (channelNumber 4) toPlace
      buses := ⟨Recorder.blank true, false, []⟩
      cycles := 0 }
  schedule := Beam.powerOn.await .endLine Beam.cyclesPerLine

theorem sampling_beside_decoder :
    (sampling 0).withoutDecoder.runChannel 4 =
        (((sampling 0).runChannel 4).1, ((sampling 0).runChannel 4).2.withoutDecoder) ∧
      Traced.Calls BusCall.wrote? (sampling 0).rig.buses ((sampling 0).runChannel 4).2.rig.buses
        [0x7E1000, 0x7E1000, 0x7E1000] ∧
      Traced.Calls BusCall.wrote? (sampling 1).rig.buses ((sampling 1).runChannel 4).2.rig.buses
        [0x7E1000, 0x7E1001, 0x7E1002] ∧
      ¬ Host.RunsAlike 4 ((sampling 1).withoutDecoder.runChannel 4)
        ((sampling 1).runChannel 4) := by
  have hquiet (ready : UInt8) : (sampling ready).Quiet
      (slowAccess + slowAccess * ((sampling ready).rig.channel 4).length) := by
    intro position hp
    cases hp
    show 0 + (slowAccess + slowAccess * 3) < Beam.cyclesPerLine
    decide
  have hrest (ready : UInt8) : (sampling ready).rig.Resting := ⟨rfl, rfl⟩
  obtain ⟨hsame, hrun⟩ := collecting_beside_decoder Beam.blindToDecoder (sampling 0) 4 (by decide)
  obtain ⟨-, hrun'⟩ := collecting_beside_decoder Beam.blindToDecoder (sampling 1) 4 (by decide)
  obtain ⟨hwrote, -⟩ := hrun (hquiet 0) ((hrest 0).notMem 4)
  obtain ⟨hwrote', halike⟩ := hrun' (hquiet 1) ((hrest 1).notMem 4)
  exact ⟨hsame (by decide), hwrote, hwrote', fun h => absurd (halike.mp h) (by decide)⟩

/-- With the decoder ready the address moves on with every byte, and without it it stays. -/
theorem sampling_spills :
    BlindToDecoder Beam (Traced Recorder) ∧
      ((sampling 1).rig.channel 4).control.reverse = true ∧
      ((sampling 1).rig.channel 4).control.fixed = true ∧
      (((sampling 1).runChannel 4).2.rig.channel 4).address = 0x1003 ∧
      (((sampling 1).withoutDecoder.runChannel 4).2.rig.channel 4).address = 0x1000 := by
  refine ⟨Beam.blindToDecoder, by decide, by decide, by decide +kernel, by decide +kernel⟩

end

end DmaController
