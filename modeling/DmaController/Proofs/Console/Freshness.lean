import DmaController.Console.Beam
import DmaController.Proofs.Console.Pointers
import DmaController.Proofs.LineTransfer.Setup
import DmaController.Proofs.Transfer.Events

/-! # Fresh pointers on a console

A channel is `Fresh` if its direct access, should it have any, leads to where its registers lead.
Lines and frames keep a channel fresh (`fresh_runLine`, `fresh_beginFrame`), and so does the
beam (`Beam.fresh_fire`).

A general transfer counts its channel down, and for an indirect channel the count is also the
offset of the data of its next unit.  With direct access in its cache such a channel goes stale
with the first byte (`fresh_countDown_iff`).  Without it the channel can be given direct access
only by a line or a frame that runs inside the transfer; the transfer then finds its channel among
those that ran, and counts no further (`Guarded`).  That word can be overwritten by a later line,
but on the beam a line overwrites it only if the channel's table has ended, which takes the direct
access away again. -/

namespace DmaController

namespace Channel

/-- The pointer to where the registers lead for the next unit, where that is memory. -/
def pointer (c : Channel) : Option Pointer := Board.pointerTo c.lineBank c.lineOffset

/-- Direct access, if there is any, leads where the registers do. -/
def Fresh (c : Channel) : Prop := ∀ p, c.cache = some p → c.pointer = some p

theorem fresh_of_none {c : Channel} (h : c.cache = none) : c.Fresh := by
  intro p hp
  rw [h] at hp
  cases hp

theorem fresh_iff {c : Channel} : c.Fresh ↔ c.cache = none ∨ c.pointer = c.cache := by
  constructor
  · intro h
    cases hc : c.cache with
    | none => exact .inl rfl
    | some p => exact .inr (h p hc)
  · rintro (hnone | hsame)
    · exact fresh_of_none hnone
    · intro p hp
      exact hsame.trans hp

instance (c : Channel) : Decidable c.Fresh := decidable_of_iff _ fresh_iff.symm

/-- A fresh channel whose registers change stays fresh if and only if it has no direct access or
the registers lead where they led. -/
theorem fresh_iff_of_cache_eq {c c' : Channel} (h : c.Fresh) (hc : c'.cache = c.cache) :
    c'.Fresh ↔ c.cache = none ∨ c'.pointer = c.pointer := by
  cases hcache : c.cache with
  | none => exact ⟨fun _ => .inl rfl, fun _ => fresh_of_none (hc.trans hcache)⟩
  | some p =>
      have hp := h p hcache
      constructor
      · intro h'
        right
        rw [hp, h' p (hc.trans hcache)]
      · rintro (hnone | hsame)
        · cases hnone
        · intro q hq
          rw [hc, hcache] at hq
          cases hq
          exact hsame.trans hp

/-- Counting down leaves a fresh channel fresh unless it is indirect and has direct access. -/
theorem fresh_countDown_iff {c : Channel} (h : c.Fresh) (step : AddressStep) :
    (c.countDown step).Fresh ↔ (c.control.indirect = true → c.cache = none) := by
  rw [fresh_iff_of_cache_eq h (by rfl : (c.countDown step).cache = c.cache)]
  cases hi : c.control.indirect with
  | false =>
      have hsame : (c.countDown step).pointer = c.pointer := by
        simp only [pointer, lineBank, lineOffset, countDown, hi, Bool.false_eq_true, if_false]
      refine ⟨fun _ h => ?_, fun _ => .inr hsame⟩
      cases h
  | true =>
      constructor
      · rintro (hnone | hsame) -
        · exact hnone
        -- No two offsets have the same pointer, so there is none.
        · cases hcache : c.cache with
          | none => rfl
          | some p =>
              have hp : Board.Points p c.lineBank c.lineOffset := h p hcache
              have hp' : Board.Points p c.lineBank (c.countDown step).lineOffset := by
                show (c.countDown step).pointer = some p
                rw [hsame]
                exact hp
              have hoffset := Board.offset_eq_of_points hp hp'
              simp only [lineOffset, countDown, hi, if_true] at hoffset
              have hcount := congrArg UInt16.toNat hoffset
              have hlt := c.count.toNat_lt
              rw [UInt16.toNat_sub] at hcount
              change c.count.toNat = (2 ^ 16 - 1 + c.count.toNat) % 2 ^ 16 at hcount
              omega
      · exact fun hnone => .inl (hnone rfl)

end Channel

namespace Rig

/-! ### Units -/

/-- Sends a unit with the bytes that looking at their addresses shows. -/
def sendLooked (c : Channel) (r : Rig Board) : Rig Board :=
  r.forUnit c.mode fun k offset r =>
    let v := r.buses.look (.of c.lineBank (c.lineOffset + UInt16.ofNat k))
    let r :=
      if k + 1 = c.mode.size ∧ c.mode.isAlternating then r.modifyBuses (Buses.setOpenBus v) else r
    (r.writeRegister (c.register offset) v).spend slowAccess

/-- Through the pointer of its registers, a unit inside a block sends what looking shows. -/
theorem sendDirect_eq_sendLooked {c : Channel} {p : Pointer} (hp : c.pointer = some p)
    (hinside : c.unitReachesBlockEnd = false) (r : Rig Board) :
    r.sendDirect c p = r.sendLooked c := by
  have hlt : positionInBlock c.lineOffset + c.mode.size < blockSize := by
    simpa [Channel.unitReachesBlockEnd] using hinside
  refine forUnit_congr ?_ r
  intro k o s hk
  have hpoints : Board.Points p c.lineBank c.lineOffset := hp
  have hbyte := Board.peek_points hpoints (k := k) (by omega) s.buses
  dsimp only [peek]
  rw [hbyte]
  rfl

/-- A forward unit inside a block that channel `i` is to send by direct access through `p`. -/
structure SendsDirect (r : Rig Board) (i : ChannelId) (p : Pointer) : Prop where
  cache : (r.channel i).cache = some p
  pending : (r.channel i).pending = true
  forward : (r.channel i).control.reverse = false
  inside : (r.channel i).unitReachesBlockEnd = false

theorem sendsDirect_iff {r : Rig Board} {i : ChannelId} {p : Pointer} :
    r.SendsDirect i p ↔
      (r.channel i).cache = some p ∧ (r.channel i).pending = true ∧
        (r.channel i).control.reverse = false ∧ (r.channel i).unitReachesBlockEnd = false :=
  ⟨fun h => ⟨h.cache, h.pending, h.forward, h.inside⟩, fun h => ⟨h.1, h.2.1, h.2.2.1, h.2.2.2⟩⟩

instance (r : Rig Board) (i : ChannelId) (p : Pointer) : Decidable (r.SendsDirect i p) :=
  decidable_of_iff _ sendsDirect_iff.symm

/-- The turn of a channel that sends the bytes which looking at its addresses shows, and moves its
direct access on behind them. -/
def lookedTurn (r : Rig Board) (i : ChannelId) (p : Pointer) : Rig Board :=
  let c := r.channel i
  let r := (((r.setWorkRamTaken false).setCurrent i).pointSprites c).setWorkRamTaken
    (isWorkRam c.lineBank c.lineOffset)
  (r.sendLooked c).setCache i (some (p.offset (UInt64.ofNat c.mode.size)))

theorem sendInTurn_eq_lookedTurn {r : Rig Board} {i : ChannelId} {p : Pointer}
    (h : r.SendsDirect i p) (hp : (r.channel i).pointer = some p) :
    r.sendInTurn i = r.lookedTurn i p := by
  have hcache : (((r.setWorkRamTaken false).setCurrent i).channel i).cache = some p := h.cache
  have hc : ((r.setWorkRamTaken false).setCurrent i).channel i = r.channel i := rfl
  unfold sendInTurn lookedTurn
  rw [sendUnit_eq, refreshCache_of_some hcache, hc]
  dsimp only
  rw [h.pending, Bool.not_true, if_neg Bool.false_ne_true, h.forward, if_neg Bool.false_ne_true,
    h.inside, if_neg Bool.false_ne_true, h.cache]
  dsimp only
  rw [sendDirect_eq_sendLooked hp h.inside]

/-! ### Lines and frames -/

/-- Channel `i` is fresh, and only enabled channels are active. -/
structure Fresh (r : Rig Board) (i : ChannelId) : Prop where
  channel : (r.channel i).Fresh
  enabled : ∀ j, j ∈ r.controller.active → j ∈ r.controller.enabled

theorem fresh_runLine {r : Rig Board} {i : ChannelId} (h : r.Fresh i) (m : ChannelMask) :
    (r.runLine m).2.Fresh i := by
  refine ⟨(cached_runLine Board.reaching_points h.channel).1, ?_⟩
  intro j hj
  rw [active_runLine, ChannelMask.mem_sdiff] at hj
  rw [enabled_runLine]
  exact h.enabled j hj.1

theorem fresh_beginFrame {r : Rig Board} {i : ChannelId} (h : r.Fresh i) :
    r.beginFrame.Fresh i := by
  refine ⟨(cached_beginFrame Board.reaching_points h.channel).1, ?_⟩
  intro j hj
  rw [enabled_beginFrame]
  exact enabled_of_mem_beginFrame hj

/-- A channel comes to its turn in a line as it was before the line. -/
theorem fresh_of_mem_turns {r : Rig Board} {i : ChannelId} (h : r.Fresh i) {m : ChannelMask}
    {turn : Rig Board × ChannelId} (ht : turn ∈ r.turns m) (hi : turn.2 = i) :
    (turn.1.channel i).Fresh := by
  subst hi
  rw [(channel_of_mem_turns ht).2]
  exact h.channel

/-- Channel `i` may be counted down without going stale. -/
def Spared (r : Rig Board) (i : ChannelId) : Prop :=
  (r.channel i).control.indirect = true → (r.channel i).cache = none

/-- Either channel `i` may be counted down, or it will not be: it has run inside. -/
def Guarded (r : Rig Board) (i : ChannelId) : Prop :=
  (r.channel i).control.indirect = true →
    (r.channel i).cache = none ∨
      (i ∈ r.controller.active ∧ i ∈ r.controller.activity.ranInside)

theorem Spared.guarded {r : Rig Board} {i : ChannelId} (h : r.Spared i) : r.Guarded i :=
  fun hi => .inl (h hi)

theorem Guarded.spared {r : Rig Board} {i : ChannelId} (h : r.Guarded i)
    (hran : i ∉ r.controller.activity.ranInside) : r.Spared i :=
  fun hi => (h hi).resolve_right fun hr => hran hr.2

/-- Inside a general transfer, a line of the active channels guards the channel of the transfer:
it says that the channel ran, or the table has ended and the direct access is given up. -/
theorem guarded_runLine {r : Rig Board} {i : ChannelId} (h : r.Fresh i)
    (hin : r.controller.activity.inTransfer = true) (hguard : r.Guarded i) :
    (r.runLine r.controller.active).2.Guarded i := by
  have hsetup := setAs_runLine r r.controller.active i
  intro hindirect
  rw [hsetup.control_eq] at hindirect
  rw [ranInside_runLine, if_pos hin, active_runLine]
  by_cases hi : i ∈ r.controller.active
  · by_cases hrunning : i ∈ (r.runLine r.controller.active).1
    · right
      rw [ChannelMask.mem_sdiff, ChannelMask.mem_sdiff]
      exact ⟨⟨hi, fun hn => hn.2 hrunning⟩, hi⟩
    · left
      exact (cached_runLine Board.reaching_points h.channel).2 hi hrunning
  · left
    rw [channel_runLine_of_notMem hi]
    exact (hguard hindirect).resolve_right fun hr => hi hr.1

/-- So does a frame: a channel that is enabled runs or has an empty table, and any other is left as
it was. -/
theorem guarded_beginFrame {r : Rig Board} {i : ChannelId} (h : r.Fresh i)
    (hin : r.controller.activity.inTransfer = true) (hguard : r.Guarded i) :
    r.beginFrame.Guarded i := by
  intro hindirect
  rw [(setAs_beginFrame r i).control_eq] at hindirect
  by_cases hi : i ∈ r.controller.enabled
  · by_cases hactive : i ∈ r.beginFrame.controller.active
    · right
      rw [ranInside_beginFrame, inTransfer_beginFrame, if_pos hin]
      exact ⟨hactive, hactive⟩
    · left
      exact (cached_beginFrame Board.reaching_points h.channel).2 hi hactive
  · left
    have hnone := (hguard hindirect).resolve_right fun hr => hi (h.enabled i hr.1)
    obtain ⟨s, -, hchannel, hactive, hlast, -⟩ :=
      beginFrame_turn (P := fun _ => True) (fun _ _ _ => trivial) (r := r) trivial i
    rw [hlast, prepareChannel_of_notMem (fun hs => hi (hactive.mp hs)), channel_modifyChannel,
      if_pos rfl, hchannel]
    exact hnone

/-- Inside a general transfer of channel `n`, channel `i` is fresh, and guarded if it is the
channel of the transfer. -/
structure Watched (r : Rig Board) (n i : ChannelId) : Prop extends r.Fresh i where
  inTransfer : r.controller.activity.inTransfer = true
  guarded : n = i → r.Guarded i

end Rig

/-! ### The beam -/

namespace Beam

/-- What frames, lines of the active channels and time keep, every event of the beam keeps. -/
theorem fire_induction {β : Type} [Buses β] {P : Rig β → Prop} {h : Host Beam β} (hrig : P h.rig)
    (hframe : P h.rig.beginFrame) (hline : P (h.rig.runLine h.rig.controller.active).2)
    (hspend : ∀ n, P (h.rig.spend n)) : P (fire h).rig := by
  unfold fire
  cases h.schedule.event with
  | beginFrame => exact hframe
  | runLine =>
      dsimp only
      split
      · exact hrig
      · exact hline
  | endLine => exact hspend _

theorem fresh_fire {h : Host Beam Board} {i : ChannelId} (hf : h.rig.Fresh i) :
    (fire h).rig.Fresh i :=
  fire_induction (P := fun r => r.Fresh i) hf (Rig.fresh_beginFrame hf) (Rig.fresh_runLine hf _)
    fun _ => ⟨hf.channel, hf.enabled⟩

theorem watched_fire {h : Host Beam Board} {n i : ChannelId} (hw : h.rig.Watched n i) :
    (fire h).rig.Watched n i := by
  refine fire_induction (P := fun r => r.Watched n i) hw ?_ ?_ ?_
  · refine ⟨Rig.fresh_beginFrame hw.toFresh, ?_, ?_⟩
    · rw [Rig.inTransfer_beginFrame]
      exact hw.inTransfer
    · exact fun hi => Rig.guarded_beginFrame hw.toFresh hw.inTransfer (hw.guarded hi)
  · refine ⟨Rig.fresh_runLine hw.toFresh _, ?_, ?_⟩
    · rw [Rig.inTransfer_runLine]
      exact hw.inTransfer
    · exact fun hi => Rig.guarded_runLine hw.toFresh hw.inTransfer (hw.guarded hi)
  · intro time
    exact ⟨⟨hw.channel, hw.enabled⟩, hw.inTransfer, hw.guarded⟩

/-- The turns in which channels send at the event to come. -/
def turns (h : Host Beam Board) : List (Rig Board × ChannelId) :=
  match h.schedule.event with
  | .runLine => h.rig.turns h.rig.controller.active
  | _ => []

theorem fresh_turns {h : Host Beam Board} {i : ChannelId} (hf : h.rig.Fresh i) :
    ∀ turn ∈ turns h, turn.2 = i → (turn.1.channel i).Fresh := by
  intro turn hturn
  unfold turns at hturn
  split at hturn
  · exact Rig.fresh_of_mem_turns hf hturn
  · cases hturn

end Beam

/-! ### A general transfer -/

namespace Host

/-- A byte counted on a channel that is spared leaves it fresh. -/
theorem watched_byteDone {t : Transfer} {i : ChannelId} {progress : Progress}
    {h : Host Beam Board} (hw : h.rig.Watched t.id i) (hs : t.id = i → h.rig.Spared i) :
    (h.byteDone t progress).rig.Watched t.id i := by
  have hmoved := keeps_moveByte t progress h.rig
  have hactive : (h.byteDone t progress).rig.controller.active = h.rig.controller.active :=
    hmoved.active
  have henabled : (h.byteDone t progress).rig.controller.enabled = h.rig.controller.enabled :=
    hmoved.enabled
  refine ⟨⟨?_, ?_⟩, hmoved.inTransfer.trans hw.inTransfer, ?_⟩
  · rw [channel_byteDone]
    split
    · rename_i hi
      rw [hi]
      exact (Channel.fresh_countDown_iff hw.channel t.step).mpr (hs hi)
    · exact hw.channel
  · rw [hactive, henabled]
    exact hw.enabled
  · intro hi hindirect
    rw [channel_byteDone, if_pos hi, hi] at hindirect ⊢
    exact .inl (hs hi hindirect)

/-- The events after a byte leave the channel fresh; and if the transfer then goes on, it may be
counted down once more. -/
theorem fresh_passByte {h : Host Beam Board} {n i : ChannelId} (hw : h.rig.Watched n i) :
    (h.passByte n).2.rig.Fresh i ∧
      ((h.passByte n).1 = true →
        (h.passByte n).2.rig.Watched n i ∧ (n = i → (h.passByte n).2.rig.Spared i)) := by
  have hspent : (h.spend slowAccess).rig.Watched n i :=
    ⟨⟨hw.channel, hw.enabled⟩, hw.inTransfer, hw.guarded⟩
  have hsettled : (h.spend slowAccess).settle.rig.Watched n i :=
    settleWithin_induction (P := fun h : Host Beam Board => h.rig.Watched n i)
      (fun _ => Beam.watched_fire) settleLimit hspent
  refine ⟨⟨hsettled.channel, hsettled.enabled⟩, ?_⟩
  intro hgoes
  have hran := passByte_iff.mp hgoes
  have hspared : n = i → (h.passByte n).2.rig.Spared i := by
    intro hi
    exact (hsettled.guarded hi).spared (hi ▸ hran)
  exact ⟨⟨⟨hsettled.channel, hsettled.enabled⟩, hsettled.inTransfer,
    fun hi => (hspared hi).guarded⟩, hspared⟩

/-- The turns that channel `i` has in the events after a byte come upon it fresh. -/
theorem fresh_settleNotes {h : Host Beam Board} {i : ChannelId} (hf : h.rig.Fresh i) :
    ∀ turn ∈ settleNotes Beam.turns settleLimit h, turn.2 = i → (turn.1.channel i).Fresh :=
  settleNotes_induction (P := fun h : Host Beam Board => h.rig.Fresh i)
    (Q := fun turn : Rig Board × ChannelId => turn.2 = i → (turn.1.channel i).Fresh)
    (fun _ => Beam.fresh_fire) (fun _ => Beam.fresh_turns) settleLimit hf

/-- Channel `i` is fresh behind the byte and at all turns it has in the events that follow. -/
def FreshByte (i : ChannelId) (byte : Host Beam Board × List (Rig Board × ChannelId)) : Prop :=
  (byte.1.rig.channel i).Fresh ∧ ∀ turn ∈ byte.2, turn.2 = i → (turn.1.channel i).Fresh

theorem fresh_moveBytes (t : Transfer) (i : ChannelId) (n : Nat) :
    ∀ (progress : Progress) (h : Host Beam Board), h.rig.Watched t.id i →
      (t.id = i → h.rig.Spared i) →
      (moveBytes t n progress h).2.rig.Fresh i ∧
        ∀ byte ∈ byteNotes Beam.turns t n progress h, FreshByte i byte := by
  induction n with
  | zero =>
      intro progress h hw _
      refine ⟨hw.toFresh, ?_⟩
      intro byte hbyte
      cases hbyte
  | succ n ih =>
      intro progress h hw hs
      have hdone : (h.byteDone t progress).rig.Watched t.id i := watched_byteDone hw hs
      obtain ⟨hpassed, hgoes⟩ := fresh_passByte hdone
      have hspent : ((h.byteDone t progress).spend slowAccess).rig.Fresh i :=
        ⟨hdone.channel, hdone.enabled⟩
      have hfirst : FreshByte i (h.byteDone t progress,
          settleNotes Beam.turns settleLimit ((h.byteDone t progress).spend slowAccess)) :=
        ⟨hdone.channel, fresh_settleNotes hspent⟩
      rw [moveBytes_succ, byteNotes]
      cases hp : ((h.byteDone t progress).passByte t.id).1 with
      | false =>
          simp only [Bool.false_eq_true, if_false]
          refine ⟨hpassed, ?_⟩
          intro byte hbyte
          rw [List.mem_singleton.mp hbyte]
          exact hfirst
      | true =>
          obtain ⟨hw', hs'⟩ := hgoes hp
          obtain ⟨hrest, hbytes⟩ := ih (t.moveByte progress h.rig).1 _ hw' hs'
          simp only [if_true]
          refine ⟨hrest, ?_⟩
          intro byte hbyte
          rcases List.mem_cons.mp hbyte with rfl | hbyte
          · exact hfirst
          · exact hbytes byte hbyte

/-- A general transfer leaves channel `i` fresh, behind each of its bytes and at its end, if it is
on another channel or on one that may be counted down. -/
theorem fresh_runChannel {h : Host Beam Board} {n i : ChannelId} (hf : h.rig.Fresh i)
    (hs : n = i → h.rig.Spared i) :
    (h.runChannel n).2.rig.Fresh i ∧
      ∀ byte ∈ h.transferNotes Beam.turns n, FreshByte i byte := by
  obtain ⟨hchannel, hactive, henabled, hin⟩ := h.round_prepare n
  have hid := h.prepare_id n
  rw [runChannel_eq]
  unfold transferNotes
  generalize h.prepare n = p at hchannel hactive henabled hin hid ⊢
  obtain ⟨t, progress, start⟩ := p
  dsimp only at *
  subst hid
  have hs' : t.id = i → start.rig.Spared i := by
    unfold Rig.Spared
    rw [hchannel]
    exact hs
  have hw : start.rig.Watched t.id i := by
    refine ⟨⟨?_, ?_⟩, hin, fun hi => (hs' hi).guarded⟩
    · rw [hchannel]
      exact hf.channel
    · rw [hactive, henabled]
      exact hf.enabled
  obtain ⟨hmoved, hbytes⟩ :=
    fresh_moveBytes t i (h.rig.channel t.id).length progress start hw hs'
  generalize moveBytes t _ progress start = moved at hmoved ⊢
  refine ⟨⟨?_, ?_⟩, hbytes⟩
  · rw [channel_conclude]
    exact hmoved.channel
  · rw [controller_conclude]
    exact hmoved.enabled

/-- On an indirect channel that has direct access, the first byte of a general transfer leaves the
channel stale. -/
theorem stale_transferNotes {κ : Type} [Schedule κ Board] {γ : Type} (note : Host κ Board → List γ)
    {h : Host κ Board} {i : ChannelId} (hf : (h.rig.channel i).Fresh) (hs : ¬ h.rig.Spared i) :
    ∃ byte ∈ h.transferNotes note i, ¬ (byte.1.rig.channel i).Fresh := by
  obtain ⟨hchannel, -, -, -⟩ := h.round_prepare i
  have hid := h.prepare_id i
  have hlength := (h.rig.channel i).length_pos
  unfold transferNotes
  generalize h.prepare i = p at hchannel hid ⊢
  obtain ⟨t, progress, start⟩ := p
  dsimp only at *
  subst hid
  cases hn : (h.rig.channel t.id).length with
  | zero => omega
  | succ n =>
      refine ⟨(start.byteDone t progress, _), List.mem_cons_self, ?_⟩
      rw [channel_byteDone, if_pos rfl, hchannel, Channel.fresh_countDown_iff hf]
      exact hs

end Host

end DmaController
