import DmaController.Proofs.Transfer.Forward
import DmaController.Proofs.Transfer.Poised
import DmaController.Proofs.Transfer.Undisturbed

/-! # Streams out of the decoder

A transfer whose bytes come out of the decoder makes no access to the A-bus.  `Buses.Receives b ws
b'` says so: from `b` to `b'` the registers were written in the order of `ws`, be it through an
entrance of their own, and besides that bytes may have been left floating on the bus.

Byte `k` of such a transfer is the decoded byte `k` places behind the first, or before it if the
channel counts down, modulo 2^16 (`Channel.streamed`).  The decoded bytes have places of their own
and no blocks, so one stretch is enough for a transfer of any length; `Streaming` is the invariant
of its loop.  What is decoded in each place is told by the bytes that were handed over, of which the
last to reach the place count (`StreamDecoder.byte_holdAll`). -/

namespace DmaController

/-! ### What is handed over -/

namespace Memory

/-- Loading leaves alone what lies in front of it. -/
theorem get_load_of_lt (m : Memory) {start : Nat} {bytes : List UInt8}
    (hfits : start + bytes.length ≤ 0x1000000) {a : Nat} (ha : a < start) :
    (m.load start bytes).get a = m.get a := by
  induction bytes generalizing m start with
  | nil => rfl
  | cons v bytes ih =>
      rw [List.length_cons] at hfits
      have hne : start % 0x1000000 ≠ a := by omega
      rw [load, ih (m.set _ v) (by omega) (by omega), m.get_set_ne v hne]

theorem get_load (m : Memory) {start : Nat} {bytes : List UInt8}
    (hfits : start + bytes.length ≤ 0x1000000) (n : Nat) :
    (m.load start bytes).get (start + n) = (bytes[n]?).getD (m.get (start + n)) := by
  induction bytes generalizing m start n with
  | nil => rfl
  | cons v bytes ih =>
      rw [List.length_cons] at hfits
      have hstart : start % 0x1000000 = start := by omega
      rw [load, hstart]
      cases n with
      | zero =>
          rw [get_load_of_lt _ (by omega) (by omega)]
          exact m.get_set_same start v
      | succ n =>
          have hplace : start + (n + 1) = start + 1 + n := by omega
          have hne : start ≠ start + 1 + n := by omega
          rw [hplace, ih (m.set start v) (by omega) n, m.get_set_ne v hne]
          rfl

end Memory

namespace StreamDecoder

/-- Bytes are handed over, one load after the other. -/
def holdAll (d : StreamDecoder) (loads : List (List UInt8)) : StreamDecoder := loads.foldl hold d

/-- The byte that was last put in a place, if any of the loads reaches so far. -/
def lastPut (place : Nat) : List (List UInt8) → Option UInt8
  | [] => none
  | bytes :: loads => (lastPut place loads).or bytes[place]?

theorem ready_holdAll (d : StreamDecoder) (loads : List (List UInt8)) :
    (d.holdAll loads).ready = d.ready := by
  induction loads generalizing d with
  | nil => rfl
  | cons bytes loads ih => exact ih (d.hold bytes)

theorem byte_hold (d : StreamDecoder) (bytes : List UInt8) (position : UInt16) :
    (d.hold bytes).byte position = (bytes[position.toNat]?).getD (d.byte position) := by
  have hplace := position.toNat_lt
  have hfits : 0 + (bytes.take capacity).length ≤ 0x1000000 := by
    rw [List.length_take, capacity]
    omega
  have hload := d.decoded.get_load hfits position.toNat
  rw [Nat.zero_add, List.getElem?_take_of_lt (by rw [capacity]; omega)] at hload
  exact hload

theorem byte_holdAll (d : StreamDecoder) (loads : List (List UInt8)) (position : UInt16) :
    (d.holdAll loads).byte position = (lastPut position.toNat loads).getD (d.byte position) := by
  induction loads generalizing d with
  | nil => rfl
  | cons bytes loads ih =>
      have hrest := ih (d.hold bytes)
      rw [byte_hold] at hrest
      rw [lastPut, Option.getD_or]
      exact hrest

end StreamDecoder

/-! ### What the buses receive -/

/-- The buses have come from `b` to another state by these register writes, in order, and by bytes
that were left floating. -/
inductive Buses.Receives {β : Type} [Buses β] (b : β) : List (UInt16 × UInt8) → β → Prop
  | nothing : Receives b [] b
  | floating {ws : List (UInt16 × UInt8)} {b' : β} (h : Receives b ws b') (v : UInt8) :
      Receives b ws (Buses.setOpenBus v b')
  | register {ws : List (UInt16 × UInt8)} {b' : β} (h : Receives b ws b') (a : UInt16) (v : UInt8) :
      Receives b (ws ++ [(a, v)]) (Buses.writeRegister a v b')
  | sprite {ws : List (UInt16 × UInt8)} {b' : β} (h : Receives b ws b') (v : UInt8) :
      Receives b (ws ++ [(0x2104, v)]) (Buses.writeSprite v b')
  | video {ws : List (UInt16 × UInt8)} {b' : β} (h : Receives b ws b') (high remapped : Bool)
      (v : UInt8) :
      Receives b (ws ++ [(if high then 0x2119 else 0x2118, v)])
        (Buses.writeVideo high remapped v b')
  | colour {ws : List (UInt16 × UInt8)} {b' : β} (h : Receives b ws b') (v : UInt8) :
      Receives b (ws ++ [(0x2122, v)]) (Buses.writeColour v b')
  | workRam {ws : List (UInt16 × UInt8)} {b' : β} (h : Receives b ws b') (v : UInt8) :
      Receives b (ws ++ [(0x2180, v)]) (Buses.writeWorkRam v b')

section

variable {β : Type} [Buses β]

/-- A byte that is delivered is received by the registers its route leads to. -/
theorem Buses.Receives.deliver {b : β} {ws : List (UInt16 × UInt8)} {r : Rig β}
    (h : Buses.Receives b ws r.buses) (route : Route) (a : UInt16) (o v : UInt8) (taken : Bool) :
    Buses.Receives b (ws ++ (route.registers a o taken).map fun a => (a, v))
      (route.deliver a o v taken r).buses := by
  cases route with
  | ordinary => exact h.register a v
  | sprite => exact h.sprite v
  | video high remapped => exact h.video high remapped v
  | videoPair remapped =>
      unfold Route.deliver
      dsimp only
      split
      · exact (h.floating v).video (o == 1) remapped v
      · exact h.video (o == 1) remapped v
  | colour => exact h.colour v
  | workRam =>
      cases taken with
      | true =>
          rw [Route.registers, if_pos rfl, List.map_nil, List.append_nil]
          exact h
      | false => exact h.workRam v

end

/-! ### The loop -/

namespace Channel

/-- The register write by which byte `k` of a stream arrives, where `decoded` has the bytes. -/
def streamed (c : Channel) (decoded : UInt16 → UInt8) (k : Nat) : UInt16 × UInt8 :=
  (c.targetRegister k, decoded (UInt16.ofNat k * c.control.direction.word))

/-- The channel after `k` bytes of a stream. -/
def afterStreamed (c : Channel) (k : Nat) : Channel :=
  { c with
    count := c.count - UInt16.ofNat k
    address := c.address + UInt16.ofNat k * c.control.direction.word }

theorem countDown_afterStreamed (c : Channel) (k : Nat) :
    (c.afterStreamed k).countDown c.control.direction = c.afterStreamed (k + 1) :=
  c.countDown_steps c.control.direction k

end Channel

section

variable {κ β : Type} [Buses β]

/-- Where a stream from the decoder `d` stands after `k` bytes, with `n` to go; the buses were in
the state `b` at its start. -/
structure Streaming (t : Transfer) (d : StreamDecoder) (b : β) (k n : Nat) (progress : Progress)
    (r : Rig β) : Prop where
  progress : ∃ remapped, progress = .sending ⟨t.channel.mode, k % t.channel.mode.size⟩
    (UInt16.ofNat k * t.step.word)
    ⟨.decoder, Route.choose t.channel.mode t.channel.port remapped, false, n⟩
  channel : r.channel t.id = t.channel.afterStreamed k
  decoder : r.controller.decoder = d
  received : Buses.Receives b ((List.range k).map (t.channel.streamed d.byte)) r.buses

/-- One byte of a stream, and no access to the A-bus. -/
theorem Streaming.byte {t : Transfer} (hstep : t.step = t.channel.control.direction)
    {d : StreamDecoder} {b : β} {k n : Nat} {progress : Progress} {r : Rig β}
    (h : Streaming t d b k (n + 1) progress r) :
    Streaming t d b (k + 1) n (t.moveByte progress r).1 (t.quietByte progress r) := by
  obtain ⟨remapped, hprogress⟩ := h.progress
  obtain ⟨taken, hkept⟩ := Host.keeps_moveByte t progress r
  have hsent := h.received.deliver (Route.choose t.channel.mode t.channel.port remapped)
    (t.channel.targetRegister k) (t.channel.mode.offsets.getD (k % t.channel.mode.size) 0)
    (d.byte (UInt16.ofNat k * t.step.word)) false
  rw [Channel.targetRegister, Route.registers_choose, ← h.decoder, List.map_singleton] at hsent
  refine ⟨⟨remapped, ?_⟩, ?_, ?_, ?_⟩
  · rw [hprogress, t.step.word_succ, ← UnitCursor.advance_mod]
    rfl
  · rw [t.channel_quietByte, h.channel, hstep, Channel.countDown_afterStreamed]
  · show (t.moveByte progress r).2.controller.decoder = d
    rw [hkept]
    exact h.decoder
  · rw [List.range_succ, List.map_append, List.map_singleton, Channel.streamed, ← hstep,
      Channel.targetRegister, ← h.decoder]
    rw [hprogress]
    exact hsent

/-- A transfer out of the decoder uses its ready register up and begins with one word, that the
A-bus does not use work RAM. -/
theorem prepare_streaming (h : Host κ β) (i : ChannelId)
    (hforward : (h.rig.channel i).control.reverse = false)
    (hvalid : (h.rig.channel i).feedsWorkRamItself = false) (hdecoded : h.isDecoded i = true) :
    let c := h.rig.channel i
    let t : Transfer := ⟨i, c, c.control.direction⟩
    ∃ progress start, h.prepare i = (t, progress, start) ∧
      Streaming t { h.rig.controller.decoder with ready := 0 }
        (Buses.setWorkRamTaken false h.rig.buses) 0 c.length progress start.rig ∧
      start.rig.cycles = h.rig.cycles + slowAccess ∧ start.schedule = h.schedule ∧
      start.rig.controller.activity.ranInside = h.rig.controller.activity.ranInside := by
  intro c t
  have hready : (c.control.fixed && (h.noteStart i).takeDecoderReady.1) = true := by
    rw [Host.takeDecoderReady_fst, ← Bool.and_assoc]
    exact hdecoded
  have hfitted : (h.noteStart i).rig.controller.settings.decoderFitted = true := by
    unfold Host.isDecoded at hdecoded
    simp only [Bool.and_eq_true] at hdecoded
    exact hdecoded.1.2
  have hprepared : h.prepare i =
      let ready := (h.noteStart i).takeDecoderReady.2.spend slowAccess
      (t, (t.beginSending true ready.rig).1,
        { ready with rig := (t.beginSending true ready.rig).2 }) := by
    unfold Host.prepare
    dsimp only
    rw [if_neg (Bool.eq_false_iff.mp hvalid), hready, if_pos rfl]
    unfold Transfer.begin
    rw [if_neg (Bool.eq_false_iff.mp hforward)]
  rw [Host.takeDecoderReady_of_fitted hfitted] at hprepared
  have hfirst : UInt16.ofNat 0 * t.step.word = 0 := UInt16.zero_mul
  refine ⟨_, _, hprepared,
    ⟨⟨Buses.remapsVideo (Buses.setWorkRamTaken false h.rig.buses), ?_⟩, ?_, rfl, .nothing⟩,
    rfl, rfl, rfl⟩
  · rw [Nat.zero_mod, hfirst]
    rfl
  · show c = c.afterStreamed 0
    simp [Channel.afterStreamed]

end

/-! ### The whole stream -/

/-- The decoder holds these bytes when the transfer begins, whoever put them there. -/
theorem runChannel_streaming {κ β : Type} [Buses β] [Schedule κ β] (h : Host κ β) (i : ChannelId)
    (hforward : (h.rig.channel i).control.reverse = false)
    (hvalid : (h.rig.channel i).feedsWorkRamItself = false) (hdecoded : h.isDecoded i = true)
    (hquiet : h.Quiet (slowAccess + slowAccess * (h.rig.channel i).length))
    (hrest : i ∉ h.rig.controller.activity.ranInside) :
    let c := h.rig.channel i
    (h.runChannel i).1 = true ∧
      (∃ b, Buses.Receives (Buses.setWorkRamTaken false h.rig.buses)
          ((List.range c.length).map (c.streamed h.rig.controller.decoder.byte)) b ∧
        (h.runChannel i).2.rig.buses = Buses.setWorkRamTaken false b) ∧
      (h.runChannel i).2.rig.channel i = c.afterStreamed c.length ∧
      (h.runChannel i).2.rig.controller.decoder =
        { h.rig.controller.decoder with ready := 0 } := by
  intro c
  obtain ⟨progress, start, hprepared, hstart, hcycles, hschedule, hran⟩ :=
    prepare_streaming h i hforward hvalid hdecoded
  have hquiet' : start.Quiet (slowAccess * c.length) := by
    intro position hp
    have hdue := hquiet position (by rw [← hp]; unfold Host.nextEvent; rw [hschedule])
    rw [hcycles]
    show h.rig.cycles + slowAccess + slowAccess * ((h.rig.channel i).length : Int) < position
    omega
  obtain ⟨hdone, progress', hlast⟩ := Host.moveBytes_quiet
    (P := Streaming ⟨i, c, c.control.direction⟩ { h.rig.controller.decoder with ready := 0 }
      (Buses.setWorkRamTaken false h.rig.buses))
    (fun _ _ _ _ hbyte => hbyte.byte rfl) c.length 0 hstart hquiet' (hran ▸ hrest)
  rw [Nat.zero_add] at hlast
  rw [Host.runChannel_eq, hprepared]
  refine ⟨hdone, ⟨_, hlast.received, Host.buses_conclude _ _ _⟩, ?_, ?_⟩
  · show (Host.conclude _ _ _).rig.channel i = _
    rw [Host.channel_conclude]
    exact hlast.channel
  · show (Host.conclude _ _ _).rig.controller.decoder = _
    rw [Host.controller_conclude]
    exact hlast.decoder

/-- A transfer out of the decoder that no event interrupts comes to its end.  It writes the decoded
bytes to its registers, each where the reference has it, with no access to the A-bus and with work
RAM free all the while; the count ends at zero, the address behind the last byte, and the ready
register is used up. -/
theorem runChannel_streams {κ β : Type} [Buses β] [Schedule κ β] (h₀ : Host κ β)
    (loads : List (List UInt8)) (i : ChannelId)
    (hforward : (h₀.rig.channel i).control.reverse = false)
    (hvalid : (h₀.rig.channel i).feedsWorkRamItself = false) (hdecoded : h₀.isDecoded i = true)
    (hquiet : h₀.Quiet (slowAccess + slowAccess * (h₀.rig.channel i).length))
    (hrest : i ∉ h₀.rig.controller.activity.ranInside) :
    let c := h₀.rig.channel i
    let held := fun position : UInt16 =>
      (StreamDecoder.lastPut position.toNat loads).getD (h₀.rig.controller.decoder.byte position)
    let h := h₀.modifyController fun k => { k with decoder := k.decoder.holdAll loads }
    (h.runChannel i).1 = true ∧
      (∃ b, Buses.Receives (Buses.setWorkRamTaken false h₀.rig.buses)
          ((List.range c.length).map (c.streamed held)) b ∧
        (h.runChannel i).2.rig.buses = Buses.setWorkRamTaken false b) ∧
      (h.runChannel i).2.rig.channel i = { c with
        count := 0
        address := c.address + UInt16.ofNat c.length * c.control.direction.word } ∧
      (h.runChannel i).2.rig.controller.decoder.ready = 0 := by
  intro c held h
  have hready : h.rig.controller.decoder.ready = h₀.rig.controller.decoder.ready :=
    StreamDecoder.ready_holdAll _ loads
  have hheld : h.rig.controller.decoder.byte = held :=
    funext (StreamDecoder.byte_holdAll h₀.rig.controller.decoder loads)
  have hdecoded' : h.isDecoded i = true := by
    rw [← hdecoded, Host.isDecoded, hready]
    rfl
  obtain ⟨hdone, hbuses, hchannel, hdecoder⟩ :=
    runChannel_streaming h i hforward hvalid hdecoded' hquiet hrest
  rw [hheld] at hbuses
  have hlast : c.afterStreamed c.length = { c with
      count := 0
      address := c.address + UInt16.ofNat c.length * c.control.direction.word } := by
    rw [Channel.afterStreamed, Channel.count_sub_length]
  exact ⟨hdone, hbuses, hchannel.trans hlast, by rw [hdecoder]⟩

/-! ### A stream for video data -/

section

attribute [local instance] Recorder.dedicated

/-- Three bytes out of the decoder are due for the two registers of video data. -/
def streamed : Host Beam Recorder where
  rig :=
    { controller :=
        { (Controller.powerOn { Settings.standard with decoderFitted := true }).setChannel
            (channelNumber 4)
            { Channel.powerOn with
              control := .ofByte 0x09, port := 0x18, bank := 0x7E, address := 0xFFFE, count := 3 }
          with decoder := { StreamDecoder.powerOn with ready := 1 } }
      buses := .blank false
      cycles := 0 }
  schedule := Beam.powerOn.await .endLine Beam.cyclesPerLine

/-- Of two loads the second is the shorter one, so the first is still seen behind it. -/
theorem streamed_out :
    let h := streamed.modifyController fun k =>
      { k with decoder := k.decoder.holdAll [[0x11, 0x22, 0x33, 0x44], [0x99]] }
    (h.runChannel 4).1 = true ∧
      (∃ b, Buses.Receives (Buses.setWorkRamTaken false streamed.rig.buses)
          [(0x2118, 0x99), (0x2119, 0x22), (0x2118, 0x33)] b ∧
        (h.runChannel 4).2.rig.buses = Buses.setWorkRamTaken false b) ∧
      (h.runChannel 4).2.rig.channel 4 =
        { streamed.rig.channel 4 with count := 0, address := 0x0001 } ∧
      (h.runChannel 4).2.rig.controller.decoder.ready = 0 := by
  have hquiet : streamed.Quiet (slowAccess + slowAccess * (streamed.rig.channel 4).length) := by
    intro position hp
    cases hp
    decide
  have hrest : streamed.rig.Resting := ⟨rfl, rfl⟩
  exact runChannel_streams streamed [[0x11, 0x22, 0x33, 0x44], [0x99]] 4 (by decide) (by decide)
    (by decide) hquiet (hrest.notMem 4)

end

end DmaController
