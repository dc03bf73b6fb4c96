import DmaController.Proofs.Console.Level
import DmaController.Proofs.Console.Port
import DmaController.Proofs.Console.Reached

/-! # Copying through the work RAM port

A general transfer that sends all its bytes to the work RAM port makes a copy of its source.  Where
the source runs through the part of work RAM that system banks show, nothing can be copied and the
port stands still; so the copy consists of the other bytes (`Channel.foreignOffsets`), one behind
the other from the work address on, round the end of work RAM.

The proof follows the bytes.  The board has `Received` a row of bytes if they lie in their places
and everything else is as it was.  A byte from outside of work RAM adds itself to the row and a byte
from inside leaves it (`Board.Received.crossing`), as the port goes by the place of each byte.
Events in between change nothing of this, since with no channel enabled none has a turn
(`Beam.noLines_fire`).  All bytes that are copied come from read-only memory, so it does not matter
that memory changes while they are. -/

namespace DmaController

/-! ### What is received -/

namespace Board

/-- The cell of the byte that goes through the port when it has moved on by `j`. -/
def portCellAt (b : Board) (j : Nat) : Nat :=
  Region.workRamStart + (b.workAddress + j) % workRamSize

/-- From `b` on, the port has written the bytes `vs`, and nothing else was written. -/
structure Received (b : Board) (vs : List UInt8) (b' : Board) : Prop where
  workAddress : b'.workAddress = (b.workAddress + vs.length) % workRamSize
  written : ∀ j (hj : j < vs.length), b'.memory.get (b.portCellAt j) = vs[j]
  kept : ∀ cell, (∀ j < vs.length, cell ≠ b.portCellAt j) →
    b'.memory.get cell = b.memory.get cell

namespace Received

variable {b b' b'' : Board} {vs : List UInt8}

theorem nil (h : b.InRange) : b.Received [] b where
  workAddress := (Nat.mod_eq_of_lt h).symm
  written := nofun
  kept _ _ := rfl

theorem congr (h : b.Received vs b') (hlevel : b'.Level false b'') : b.Received vs b'' where
  workAddress := hlevel.workAddress.trans h.workAddress
  written j hj := by rw [hlevel.memory]; exact h.written j hj
  kept cell hcell := by rw [hlevel.memory]; exact h.kept cell hcell

/-- No two places are the same before the port has gone round. -/
theorem portCellAt_ne {j k : Nat} (hjk : j < k) (hk : k < workRamSize) :
    b.portCellAt j ≠ b.portCellAt k := by
  unfold workRamSize at hk
  unfold portCellAt workRamSize
  omega

/-- One byte more. -/
theorem snoc (h : b.Received vs b') (hroom : vs.length < workRamSize) {v : UInt8}
    (haddress : b''.workAddress = (b'.workAddress + 1) % workRamSize)
    (hmemory : b''.memory = b'.memory.set b'.portCell v) : b.Received (vs ++ [v]) b'' := by
  have hcell : b'.portCell = b.portCellAt vs.length := by
    rw [portCell, portCellAt, h.workAddress]
  refine ⟨?_, fun j hj => ?_, fun cell hcell' => ?_⟩
  · rw [haddress, h.workAddress, List.length_append, List.length_singleton, Nat.mod_add_mod,
      Nat.add_assoc]
  · rw [hmemory, hcell]
    rw [List.length_append, List.length_singleton] at hj
    by_cases hlast : j < vs.length
    · rw [Memory.get_set_ne _ v (portCellAt_ne hlast hroom).symm, List.getElem_append_left hlast]
      exact h.written j hlast
    · obtain rfl : j = vs.length := by omega
      rw [Memory.get_set_same, List.getElem_concat_length rfl]
  · rw [List.length_append, List.length_singleton] at hcell'
    rw [hmemory, hcell, Memory.get_set_ne _ v (hcell' vs.length (by omega)).symm]
    exact h.kept cell fun j hj => hcell' j (by omega)

/-- Nothing outside of work RAM was written. -/
theorem kept_outside (h : b.Received vs b') {cell : Nat} (hcell : isWorkRamCell cell = false) :
    b'.memory.get cell = b.memory.get cell := by
  refine h.kept cell fun j _ hj => ?_
  have hrange := Nat.mod_lt (b.workAddress + j) (show 0 < workRamSize by decide)
  rw [isWorkRamCell, Bool.and_eq_false_iff, decide_eq_false_iff_not, decide_eq_false_iff_not,
    hj] at hcell
  unfold portCellAt at hcell
  omega

/-- A byte that goes to the port is added to the row if it comes from outside of work RAM, and
otherwise nothing is. -/
theorem crossing {c : Crossing Board} {taken : Bool} (h : b.Received vs c.before)
    (hobeys : c.Obeys taken) (hsent : c.collected = false) (hroom : vs.length < workRamSize) :
    b.Received (vs ++ if taken then [] else [c.value]) c.after := by
  cases taken with
  | true =>
      have hmissed := hobeys.missed rfl
      rw [if_pos rfl, List.append_nil]
      exact h.congr ⟨hmissed.memory, hmissed.workAddress, nofun⟩
  | false =>
      have hserved := hobeys.served rfl
      exact h.snoc hroom hserved.workAddress (hserved.written hsent)

end Received

end Board

/-! ### Events without lines -/

/-- No channel is enabled or active, and no word is left for a general transfer. -/
structure Rig.NoLines {β : Type} (r : Rig β) : Prop where
  enabled : r.controller.enabled = ∅
  active : r.controller.active = ∅
  ranInside : r.controller.activity.ranInside = ∅

theorem Rig.noLines_beginFrame {β : Type} [Buses β] {r : Rig β} (h : r.NoLines) :
    r.beginFrame.NoLines ∧ r.beginFrame.buses = r.buses := by
  have hopened : r.openFrame.controller.active = ∅ := by
    rw [controller_openFrame]
    exact h.enabled
  have hturn : ∀ (s : Rig β) (i : ChannelId), i ∈ List.finRange 8 →
      s.controller.active = ∅ ∧ s.buses = r.buses →
        (s.prepareChannel i).controller.active = ∅ ∧ (s.prepareChannel i).buses = r.buses := by
    intro s i _ hs
    have hi : i ∉ s.controller.active := by
      rw [hs.1]
      exact ChannelMask.not_mem_empty i
    rw [prepareChannel_of_notMem hi]
    exact hs
  have hprepared := foldl_induction (List.finRange 8) hturn ⟨hopened, r.buses_openFrame⟩
  have hactive : r.beginFrame.controller.active = ∅ := hprepared.1
  refine ⟨⟨(enabled_beginFrame r).trans h.enabled, hactive, ?_⟩, hprepared.2⟩
  rw [ranInside_beginFrame, hactive, ite_self]

/-- So an event changes nothing of the buses. -/
theorem Beam.noLines_fire {h : Console} (hn : h.rig.NoLines) :
    (fire h).rig.NoLines ∧ (fire h).rig.buses = h.rig.buses := by
  unfold fire
  cases h.schedule.event with
  | beginFrame => exact Rig.noLines_beginFrame hn
  | runLine =>
      dsimp only
      rw [if_pos hn.active]
      exact ⟨hn, rfl⟩
  | endLine => exact ⟨⟨hn.enabled, hn.active, hn.ranInside⟩, rfl⟩

/-- A transfer goes on after each of its bytes, with the buses as they were. -/
theorem Console.noLines_passByte {h : Console} (hn : h.rig.NoLines) (i : ChannelId) :
    (h.passByte i).1 = true ∧ (h.passByte i).2.rig.NoLines ∧
      (h.passByte i).2.rig.buses = h.rig.buses := by
  have hsettled := Host.settleWithin_induction
    (P := fun e : Console => e.rig.NoLines ∧ e.rig.buses = h.rig.buses)
    (fun e he => ⟨(Beam.noLines_fire he.1).1, (Beam.noLines_fire he.1).2.trans he.2⟩)
    settleLimit (h := h.spend slowAccess)
    ⟨⟨hn.enabled, hn.active, hn.ranInside⟩, rfl⟩
  refine ⟨Host.passByte_iff.mpr ?_, ⟨hsettled.1.enabled, hsettled.1.active, rfl⟩, hsettled.2⟩
  intro hi
  rw [show (h.spend slowAccess).settle.rig.controller.activity.ranInside = ∅ from
    hsettled.1.ranInside] at hi
  exact ChannelMask.not_mem_empty i hi

/-! ### The bytes that are copied -/

/-- The general transfer of the channel sends all its bytes to the work RAM port, and takes them
from memory, but not from the banks of work RAM. -/
structure Channel.FeedsPort (c : Channel) : Prop where
  forward : c.control.reverse = false
  single : c.mode.isSingle = true
  port : c.port = 0x80
  bank : isWorkRamBank c.bank = false
  outside : ∀ k < c.length, (Address.of c.bank (c.sourceOffset k)).inRegisterArea = false

instance (c : Channel) : Decidable c.FeedsPort :=
  decidable_of_iff
    (c.control.reverse = false ∧ c.mode.isSingle = true ∧ c.port = 0x80 ∧
      isWorkRamBank c.bank = false ∧
      ∀ k < c.length, (Address.of c.bank (c.sourceOffset k)).inRegisterArea = false)
    ⟨fun ⟨hf, hs, hp, hb, ho⟩ => ⟨hf, hs, hp, hb, ho⟩,
      fun h => ⟨h.forward, h.single, h.port, h.bank, h.outside⟩⟩

namespace Channel

/-- The offsets of those of the first `k` bytes that lie outside of work RAM, in their order. -/
def foreignOffsets (c : Channel) (k : Nat) : List UInt16 :=
  ((List.range k).map c.sourceOffset).filter fun o => !isWorkRam c.bank o

/-- The bytes at these offsets. -/
def foreignBytes (c : Channel) (b : Board) (k : Nat) : List UInt8 :=
  (c.foreignOffsets k).map fun o => b.look (.of c.bank o)

theorem length_foreignBytes_le (c : Channel) (b : Board) (k : Nat) :
    (c.foreignBytes b k).length ≤ k := by
  have hfiltered := List.length_filter_le (fun o => !isWorkRam c.bank o)
    ((List.range k).map c.sourceOffset)
  rw [List.length_map, List.length_range] at hfiltered
  rw [foreignBytes, List.length_map]
  exact hfiltered

theorem foreignBytes_succ (c : Channel) (b : Board) (k : Nat) :
    c.foreignBytes b (k + 1) = c.foreignBytes b k ++
      if isWorkRam c.bank (c.sourceOffset k) then []
      else [b.look (.of c.bank (c.sourceOffset k))] := by
  rw [foreignBytes, foreignOffsets, List.range_succ, List.map_append, List.filter_append,
    List.map_append]
  congr 1
  rw [List.map_singleton, List.filter_cons, List.filter_nil]
  cases isWorkRam c.bank (c.sourceOffset k) <;> rfl

theorem FeedsPort.register {c : Channel} (hc : c.FeedsPort) (k : Nat) :
    c.register (c.mode.offsets.getD k 0) = 0x2180 := by
  have hfirst : c.mode.offsets.getD k 0 = 0 := by
    have hsingle := hc.single
    cases hmode : c.mode <;> rw [hmode] at hsingle
    case mode0 => match k with | 0 | _ + 1 => rfl
    case mode2 | mode6 => match k with | 0 | 1 | _ + 2 => rfl
    all_goals cases hsingle
  rw [hfirst, Channel.register, hc.port]
  rfl

end Channel

/-! ### One byte -/

/-- Reading memory leaves memory and port as they are. -/
theorem Board.level_read {a : Address} (ha : a.inRegisterArea = false) (b : Board) :
    b.Level false (Buses.read a b).2 := by
  obtain ⟨cell, hcell⟩ := Region.cell?_of_outside ha
  have hread : Buses.read a b = (b.look a, { b with openBus := b.look a }) :=
    read_of_cell hcell b
  rw [hread]
  exact ⟨rfl, rfl, fun h => absurd h Bool.false_ne_true⟩

namespace Transfer

/-- Fetching a byte of memory leaves memory and port as they are. -/
theorem level_fetch (t : Transfer) (source : Source) {position : UInt16}
    (hout : Address.inRegisterArea (.of t.channel.bank position) = false) (r : Rig Board) :
    r.buses.Level false (t.fetch source position r).2.buses := by
  cases source with
  | mapped =>
      exact Rig.of_read (P := fun _ (b : Board) => r.buses.Level false b)
        (Board.level_read hout r.buses)
  | block base => exact .refl _
  | decoder => exact .refl _

variable {t : Transfer} {b : Board} {k n : Nat} {progress : Progress}

/-- A byte that is ready to go to the port is received, if it lies outside of work RAM. -/
theorem Ready.received {place : UnitCursor} {s : Stretch} {r : Rig Board}
    (h : t.Ready n (.sending place (t.channel.sourceOffset k) s) r) (hc : t.channel.FeedsPort)
    (hk : k < t.channel.length) (hreceived : b.Received (t.channel.foreignBytes b k) r.buses) :
    b.Received (t.channel.foreignBytes b (k + 1))
      (t.carry (.sending place (t.channel.sourceOffset k) s) r).buses := by
  have hout := hc.outside k hk
  have hregister : t.channel.register place.offset = 0x2180 := by
    rw [UnitCursor.offset, h.1.mode]
    exact hc.register place.step
  have haddress := h.1.address
  have hroom : (t.channel.foreignBytes b k).length < workRamSize := by
    have hle := t.channel.length_foreignBytes_le b k
    have hlength := t.channel.length_le
    unfold workRamSize
    omega
  -- The byte on its way lies where the channel says, and the port goes by that.
  obtain ⟨⟨hfetched, hobeys⟩, hsettled⟩ := h.crossing rfl
  have hbefore := hreceived.congr (t.level_fetch s.source hout r)
  have hafter := Board.Received.crossing hbefore (hobeys hregister) rfl hroom
  dsimp only at hafter
  rw [haddress] at hafter
  rw [Channel.foreignBytes_succ]
  cases htaken : isWorkRam t.channel.bank (t.channel.sourceOffset k) with
  | true =>
      rw [htaken, if_pos rfl] at hafter
      rw [if_pos rfl]
      exact hafter
  | false =>
      -- It comes from a cell that the port has not written to.
      obtain ⟨cell, hcell⟩ := Region.cell?_of_outside hout
      have hat : cellAt t.channel.bank (t.channel.sourceOffset k) = some cell :=
        (Region.cell?_of _ _).symm.trans hcell
      have hforeign : isWorkRamCell cell = false := by
        rw [← htaken, ← any_cellAt, hat, Option.any_some]
      have hvalue := hfetched rfl cell (hsettled.trans (by rw [haddress]; exact hat))
      dsimp only at hvalue
      rw [htaken, hvalue, hbefore.kept_outside hforeign, ← Board.look_of_cell hcell] at hafter
      exact hafter

/-- A transfer to the port with `n` bytes to go has sent `k` bytes, of which the port has received
those from outside of work RAM. -/
structure Feeds (t : Transfer) (b : Board) (k n : Nat) (progress : Progress) (r : Rig Board) :
    Prop where
  stands : t.Stands n progress r
  sending : ∃ place s, progress = .sending place (t.channel.sourceOffset k) s
  noLines : r.NoLines
  received : b.Received (t.channel.foreignBytes b k) r.buses

/-- So it is with the next byte. -/
theorem Feeds.received_moveByte {r : Rig Board} (h : t.Feeds b k (n + 1) progress r)
    (hc : t.channel.FeedsPort) (hk : k < t.channel.length) :
    b.Received (t.channel.foreignBytes b (k + 1)) (t.moveByte progress r).2.buses := by
  obtain ⟨hstands, ⟨place, s, rfl⟩, -, hreceived⟩ := h
  have hpoised : r.buses.Level false (t.currentStretch s r).2.buses := by
    unfold currentStretch
    split <;> exact ⟨rfl, rfl, nofun⟩
  have hready := hstands.poise
  rw [moveByte_snd]
  exact hready.received hc hk (hreceived.congr hpoised)

/-- The transfer goes on behind each byte. -/
theorem Feeds.passByte {h : Console} (hs : t.Feeds b k (n + 1) progress h.rig)
    (hc : t.channel.FeedsPort) (hstep : t.step = t.channel.control.step)
    (hk : k < t.channel.length) :
    ((h.byteDone t progress).passByte t.id).1 = true ∧
      t.Feeds b (k + 1) n (t.moveByte progress h.rig).1
        ((h.byteDone t progress).passByte t.id).2.rig := by
  have hreceived := hs.received_moveByte hc hk
  have hstands := hs.stands.byteDone.congr (Console.spares_passByte _ t.id)
  have hmoved := Host.keeps_moveByte t progress h.rig
  have hn : (h.byteDone t progress).rig.NoLines :=
    ⟨hmoved.enabled.trans hs.noLines.enabled, hmoved.active.trans hs.noLines.active,
      hmoved.ranInside.trans hs.noLines.ranInside⟩
  obtain ⟨hgoes, hn', hbuses⟩ := Console.noLines_passByte hn t.id
  refine ⟨hgoes, hstands, ?_, hn', hbuses ▸ hreceived⟩
  obtain ⟨place, s, rfl⟩ := hs.sending
  refine ⟨place.advance,
    { (t.currentStretch s h.rig).1 with left := (t.currentStretch s h.rig).1.left - 1 }, ?_⟩
  rw [Channel.sourceOffset_succ, ← hstep]
  rfl

/-- All bytes that are left are received as the first ones were. -/
theorem Feeds.moveBytes (hc : t.channel.FeedsPort) (hstep : t.step = t.channel.control.step)
    {h : Console} (hs : t.Feeds b k n progress h.rig) (hlength : k + n = t.channel.length) :
    b.Received (t.channel.foreignBytes b t.channel.length)
      (Host.moveBytes t n progress h).2.rig.buses := by
  induction n generalizing k progress h with
  | zero =>
      rw [← hlength]
      exact hs.received
  | succ n ih =>
      obtain ⟨hgoes, hnext⟩ := hs.passByte hc hstep (by omega)
      rw [Host.moveBytes_succ, if_pos hgoes]
      exact ih hnext (by omega)

end Transfer

/-! ### The whole transfer -/

/-- When it begins, a transfer to the port stands at its first byte, and has changed nothing. -/
theorem Transfer.begin_feeding {t : Transfer} (hc : t.channel.FeedsPort) (r : Rig Board) :
    (∃ place s, (t.begin false r).1 = .sending place (t.channel.sourceOffset 0) s) ∧
      r.buses.Level false (t.begin false r).2.buses := by
  have hfirst : t.channel.sourceOffset 0 = t.channel.address := by
    simp [Channel.sourceOffset]
  rw [hfirst, begin, hc.forward, if_neg Bool.false_ne_true]
  exact ⟨⟨.start t.channel.mode,
    (t.openStretch t.channel.address (t.firstStretch t.channel.address) r).1, rfl⟩,
    rfl, rfl, fun h => absurd h Bool.false_ne_true⟩

namespace Console

variable {m : Console} {i : ChannelId}

/-- Nothing is sent yet when the transfer has been prepared. -/
theorem feeds_prepare (hdecoder : m.rig.controller.settings.decoderFitted = false)
    (hn : m.rig.NoLines) (hrange : m.board.InRange) (hc : (m.rig.channel i).FeedsPort) :
    (m.prepare i).1.Feeds m.board 0 (m.rig.channel i).length (m.prepare i).2.1
      (m.prepare i).2.2.rig := by
  obtain ⟨d, hkept⟩ := m.keeps_prepare i
  have hnoLines : (m.prepare i).2.2.rig.NoLines :=
    ⟨hkept.enabled.trans hn.enabled, hkept.active.trans hn.active,
      hkept.ranInside.trans hn.ranInside⟩
  have hbegun : (∃ place s, (m.prepare i).2.1 =
        .sending place ((m.prepare i).1.channel.sourceOffset 0) s) ∧
      m.board.Level false (m.prepare i).2.2.rig.buses := by
    have hmoving : (m.rig.channel i).feedsWorkRamItself = false := by
      rw [Channel.feedsWorkRamItself, hc.bank, Bool.false_and, Bool.false_and]
    have hplain : (m.noteStart i).takeDecoderReady.1 = false := by
      rw [Host.takeDecoderReady_fst,
        show (m.noteStart i).rig.controller.settings.decoderFitted = false from hdecoder,
        Bool.false_and]
    obtain ⟨d, hready⟩ := (m.noteStart i).takeDecoderReady_snd
    unfold Host.prepare
    dsimp only
    rw [hmoving, if_neg Bool.false_ne_true, hplain, Bool.and_false, hready]
    exact Transfer.begin_feeding (t := ⟨i, m.rig.channel i, (m.rig.channel i).control.step⟩) hc _
  exact ⟨stands_prepare hdecoder i, hbegun.1, hnoLines, (Board.Received.nil hrange).congr hbegun.2⟩

/-- So the port has received the whole copy at the end. -/
theorem received_runChannel (hdecoder : m.rig.controller.settings.decoderFitted = false)
    (hn : m.rig.NoLines) (hrange : m.board.InRange) (hc : (m.rig.channel i).FeedsPort) :
    m.board.Received ((m.rig.channel i).foreignBytes m.board (m.rig.channel i).length)
      (m.runChannel i).2.rig.buses := by
  have hprepared := feeds_prepare hdecoder hn hrange hc
  have hchannel := m.prepare_channel i
  have hstep : (m.prepare i).1.step = (m.rig.channel i).control.step := by
    rw [Host.prepare_step, Host.addressStep, Channel.feedsWorkRamItself, hc.bank, Host.isDecoded,
      hdecoder, Bool.and_false]
    rfl
  rw [Host.runChannel_eq]
  generalize m.prepare i = prepared at hprepared hchannel hstep ⊢
  obtain ⟨t, progress, start⟩ := prepared
  dsimp only at hprepared hchannel hstep ⊢
  rw [← hchannel] at hprepared hstep hc ⊢
  have hmoved := hprepared.moveBytes hc hstep (Nat.zero_add _)
  refine hmoved.congr ?_
  rw [Host.buses_conclude]
  exact ⟨rfl, rfl, fun h => absurd h Bool.false_ne_true⟩

end Console

theorem ChannelMask.toList_single (i : ChannelId) : (single i).toList = [i] := by
  revert i
  decide

theorem ChannelMask.single_ne_empty (i : ChannelId) : (single i == ∅) = false := by
  revert i
  decide

/-- In a state between operations with no channel enabled for line transfers and without a decoder,
let the channel `i` send its bytes to the work RAM port, from memory outside of the banks of work
RAM.  If the processor starts it alone, the port copies exactly those bytes that lie outside of work
RAM, in their order, to the places from the work address on, round the end of work RAM; nothing else
is written to memory, and the work address has moved on by as many bytes. -/
theorem port_copies {m : Console} (hm : m.Reached)
    (hdecoder : m.rig.controller.settings.decoderFitted = false)
    (henabled : m.rig.controller.enabled = ∅) {i : ChannelId} (hc : (m.rig.channel i).FeedsPort)
    {a : Address} (ha : Console.isControllerAddress a = true ∧ Address.offset a = 0x420B) :
    let c := m.rig.channel i
    let copied := c.foreignOffsets c.length
    let m' := m.write a (ChannelMask.single i).bits
    (∀ j (hj : j < copied.length),
        m'.board.memory.get
            (Region.workRamStart + (m.board.workAddress + j) % workRamSize) =
          m.board.look (.of c.bank copied[j])) ∧
      (∀ cell, (∀ j < copied.length,
          cell ≠ Region.workRamStart + (m.board.workAddress + j) % workRamSize) →
        m'.board.memory.get cell = m.board.memory.get cell) ∧
      m'.board.workAddress = (m.board.workAddress + copied.length) % workRamSize := by
  intro c copied m'
  obtain ⟨hfree, hconsistent, hrange⟩ := hm.between
  have hn : m.rig.NoLines := by
    refine ⟨henabled, ?_, hfree.ranInside⟩
    rw [show m.rig.controller.active = _ from hconsistent, henabled]
    exact ChannelMask.ext_mem fun j => by simp
  have hstarted : m' = ((m.spend m.rig.controller.settings.syncDelay).runChannel i).2 := by
    show m.write a _ = _
    rw [Console.write_of_start ha]
    show m.startChannels (.single i) = _
    rw [Host.startChannels, hfree.busy, ChannelMask.single_ne_empty, Bool.or_false,
      if_neg Bool.false_ne_true, ChannelMask.toList_single]
    rfl
  have hreceived := Console.received_runChannel
    (m := m.spend m.rig.controller.settings.syncDelay) (i := i) hdecoder
    ⟨hn.enabled, hn.active, hn.ranInside⟩ hrange hc
  rw [← hstarted] at hreceived
  have hlength : (c.foreignBytes m.board c.length).length = copied.length := List.length_map _
  refine ⟨fun j hj => ?_, fun cell hcell => ?_, ?_⟩
  · exact (hreceived.written j (hlength ▸ hj)).trans (List.getElem_map _)
  · exact hreceived.kept cell fun j hj => hcell j (hlength ▸ hj)
  · exact hlength ▸ hreceived.workAddress

/-- The last two bytes of read-only memory in bank `$00`, and behind them the first two of work RAM,
are to go to the last place of work RAM and round its end. -/
def roundBothEnds : List Operation :=
  [.load 0x00FFFE [0x11, 0x22], .load 0x7E0000 [0x33, 0x44],
    .write 0x2181 0xFF, .write 0x2182 0xFF, .write 0x2183 0x01,
    .write 0x4300 0x02, .write 0x4301 0x80, .write 0x4302 0xFE, .write 0x4303 0xFF,
    .write 0x4304 0x00, .write 0x4305 0x04, .write 0x4306 0x00]

/-- The two bytes of read-only memory arrive, in the last place and in the first; the frame begins
while they do. -/
theorem roundBothEnds_copied :
    let m := roundBothEnds.foldl (fun m op => op.run m) (Console.powerOn .standard)
    let m' := m.write 0x420B (ChannelMask.single 0).bits
    m'.board.memory.get 0x7FFFFF = 0x11 ∧ m'.board.memory.get 0x7E0000 = 0x22 ∧
      m'.board.memory.get 0x7E0001 = m.board.memory.get 0x7E0001 ∧ m'.board.workAddress = 1 ∧
      m'.schedule.event = .runLine := by
  intro m m'
  have hreached : m.Reached := (Console.Reached.powerOn .standard).runAll roundBothEnds
  obtain ⟨hcopied, hkept, haddress⟩ := port_copies hreached (by decide +kernel) (by decide +kernel)
    (i := 0) (by decide +kernel) (a := 0x420B) (by decide)
  have hoffsets : (m.rig.channel 0).foreignOffsets (m.rig.channel 0).length = [0xFFFE, 0xFFFF] := by
    decide +kernel
  have hfirst : m.board.look (.of (m.rig.channel 0).bank 0xFFFE) = 0x11 := by decide +kernel
  have hsecond : m.board.look (.of (m.rig.channel 0).bank 0xFFFF) = 0x22 := by decide +kernel
  have hplace : m.board.workAddress = 0x1FFFF := by decide +kernel
  have hlength : ((m.rig.channel 0).foreignOffsets (m.rig.channel 0).length).length = 2 :=
    congrArg List.length hoffsets
  rw [hplace] at hcopied hkept haddress
  rw [hlength] at hkept haddress
  refine ⟨?_, ?_, ?_, haddress, by decide +kernel⟩
  · refine (hcopied 0 (by rw [hlength]; decide)).trans ?_
    rw [List.getElem_of_eq hoffsets]
    exact hfirst
  · refine (hcopied 1 (by rw [hlength]; decide)).trans ?_
    rw [List.getElem_of_eq hoffsets]
    exact hsecond
  · exact hkept 0x7E0001 (by decide)

end DmaController
