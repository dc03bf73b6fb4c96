import DmaController.Proofs.Transfer.Forward

/-! # A collecting transfer against its reference

The reference of a transfer to the A-bus goes byte by byte: byte `k` is read from the register
`offsets[k mod size]` places behind the first, and what was read is written to
`bank:(address + k * step)`, modulo 2^16, before the next register is read.  Reading a register may
change whatever lies behind the buses, so the reference is told by the bytes as they were read
(`Collected`): `Channel.collection` has the accesses of them all, in order.

While a register is read, the buses have been told whether work RAM is in use.  The transfer says so
once, or byte by byte where its registers come near the work RAM port; at the port itself it has
always said what is true of the byte at hand (`Channel.Truthful`).  `Collecting` is the invariant of
the loop, one byte keeps it (`Collecting.byte`), and a run that no event interrupts has collected
the whole reference (`runChannel_collects_reference`).  The address may move by any step, as the
stream decoder may ask for another one than the channel. -/

namespace DmaController

/-- The accesses by which data moves; asking for direct access and what is only said move none. -/
def BusCall.access? (call : BusCall) : Option BusCall :=
  match call with
  | read .. | write .. | readRegister .. | writeRegister .. | peek .. => some call
  | _ => none

/-- A byte read from a register, and whether work RAM was said to be in use when it was read. -/
structure Collected where
  value : UInt8
  taken : Bool
deriving DecidableEq, Repr

/-! ### Registers near the work RAM port -/

theorem UnitCursor.offset_le (u : UnitCursor) : u.offset ≤ 3 := by
  unfold offset
  rw [List.getD_eq_getElem?_getD]
  cases h : u.mode.offsets[u.step]? with
  | none => exact UInt8.zero_le
  | some o => exact UnitMode.offset_le (List.mem_of_getElem? h)

namespace Channel

theorem toNat_register (c : Channel) (o : UInt8) :
    (c.register o).toNat = 0x2100 + c.port.toNat + o.toNat := by
  have hport := c.port.toNat_lt
  have ho := o.toNat_lt
  simp only [register, UInt16.toNat_add, UInt8.toNat_toUInt16, UInt16.reduceToNat]
  omega

/-- Near the port, a system bank shows work RAM below `$2000`, and any other bank as a whole or not
at all. -/
theorem isWorkRam_of_port {c : Channel} {o : UInt8} (ho : o ≤ 3) (hport : c.register o = 0x2180)
    (a : UInt16) :
    isWorkRam c.bank a =
      if c.mayMeetWorkRamPort then decide (a < 0x2000) else isWorkRamBank c.bank := by
  have hregister := c.toNat_register o
  rw [hport] at hregister
  have ho' : o.toNat ≤ 3 := UInt8.le_iff_toNat_le.mp ho
  have hnear : (decide (0x7C < c.port) && decide (c.port ≤ 0x83)) = true := by
    rw [Bool.and_eq_true, decide_eq_true_eq, decide_eq_true_eq, UInt8.lt_iff_toNat_lt,
      UInt8.le_iff_toNat_le]
    simp only [UInt16.reduceToNat, UInt8.reduceToNat] at hregister ⊢
    omega
  have hbanks : isSystemBank c.bank = true → isWorkRamBank c.bank = false := by
    simp only [isSystemBank, isWorkRamBank, decide_eq_true_eq, UInt8.lt_iff_toNat_lt,
      Bool.or_eq_false_iff, beq_eq_false_iff_ne, ne_eq, ← UInt8.toNat_inj, UInt8.toNat_mod,
      UInt8.reduceToNat]
    omega
  unfold isWorkRam mayMeetWorkRamPort
  rw [hnear, Bool.true_and]
  cases hsystem : isSystemBank c.bank with
  | true => rw [hbanks hsystem, Bool.false_or, Bool.true_and, if_pos rfl]
  | false => rw [Bool.false_and, Bool.or_false, if_neg Bool.false_ne_true]

end Channel

/-! ### The reference -/

namespace Channel

/-- The offset in the channel's bank of byte `k`, when the address moves by `a`. -/
def offsetAt (c : Channel) (a : AddressStep) (k : Nat) : UInt16 :=
  c.address + UInt16.ofNat k * a.word

/-- The channel after `k` bytes between which the address moved by `a`. -/
def countedDown (c : Channel) (a : AddressStep) (k : Nat) : Channel :=
  { c with count := c.count - UInt16.ofNat k, address := c.offsetAt a k }

theorem countedDown_zero (c : Channel) (a : AddressStep) : c.countedDown a 0 = c := by
  simp [countedDown, offsetAt]

theorem countDown_countedDown (c : Channel) (a : AddressStep) (k : Nat) :
    (c.countedDown a k).countDown a = c.countedDown a (k + 1) := c.countDown_steps a k

/-- The accesses by which byte `k` is collected. -/
def collecting (c : Channel) (a : AddressStep) (k : Nat) (got : Collected) : List BusCall :=
  [.readRegister (c.targetRegister k) got.value got.taken,
    .write (.of c.bank (c.offsetAt a k)) got.value]

/-- The accesses by which a row of bytes is collected. -/
def collection (c : Channel) (a : AddressStep) (got : List Collected) : List BusCall :=
  got.zipIdx.flatMap fun byte => c.collecting a byte.2 byte.1

/-- What was said of work RAM while a byte came from the work RAM port is true of its place. -/
def Truthful (c : Channel) (a : AddressStep) (got : List Collected) : Prop :=
  ∀ k byte, got[k]? = some byte → c.targetRegister k = 0x2180 →
    byte.taken = isWorkRam c.bank (c.offsetAt a k)

theorem collection_concat (c : Channel) (a : AddressStep) (got : List Collected)
    (byte : Collected) :
    c.collection a (got ++ [byte]) = c.collection a got ++ c.collecting a got.length byte := by
  rw [collection, List.zipIdx_append, List.flatMap_append, Nat.zero_add, List.zipIdx_singleton,
    List.flatMap_singleton]
  rfl

theorem Truthful.concat {c : Channel} {a : AddressStep} {got : List Collected}
    (h : c.Truthful a got) {byte : Collected}
    (hbyte : c.targetRegister got.length = 0x2180 →
      byte.taken = isWorkRam c.bank (c.offsetAt a got.length)) :
    c.Truthful a (got ++ [byte]) := by
  intro k b hb hport
  by_cases hk : k < got.length
  · rw [List.getElem?_append_left hk] at hb
    exact h k b hb hport
  · rw [List.getElem?_append_right (Nat.le_of_not_lt hk), List.getElem?_singleton] at hb
    split at hb
    · obtain rfl : k = got.length := by omega
      cases hb
      exact hbyte hport
    · cases hb

theorem feedsWorkRamItself_of_reverse {c : Channel} (h : c.control.reverse = true) :
    c.feedsWorkRamItself = false := by
  rw [feedsWorkRamItself, h, Bool.not_true, Bool.and_false]

end Channel

/-! ### One byte -/

variable {β : Type} [Buses β]

/-- Collecting a byte is two accesses, with the word on work RAM that the transfer has given ahead
of them. -/
theorem Transfer.collectByte_calls (t : Transfer) (place : UnitCursor) (r : Rig (Traced β)) :
    ∃ got : Collected,
      Traced.Calls BusCall.access? r.buses (t.collectByte place r).buses
        [.readRegister (t.channel.register place.offset) got.value got.taken,
          .write (.of t.channel.bank (r.channel t.id).address) got.value] ∧
      got.taken =
        (if t.channel.mayMeetWorkRamPort then decide ((r.channel t.id).address < 0x2000)
        else r.buses.taken) ∧
      (t.collectByte place r).buses.taken = got.taken := by
  have htwo (register : UInt16) (a : Address) (s : Rig (Traced β)) :
      Traced.Calls BusCall.access? s.buses
        ((s.readRegister register).2.write a (s.readRegister register).1).buses
        [.readRegister register (s.readRegister register).1 s.buses.taken,
          .write a (s.readRegister register).1] := by
    have hread : Traced.Calls BusCall.access? s.buses (s.readRegister register).2.buses
        [.readRegister register (s.readRegister register).1 s.buses.taken] :=
      .one (c := .readRegister register _ s.buses.taken) rfl
    exact hread.trans (.one (c := .write a _) rfl)
  unfold collectByte
  dsimp only
  split
  · have hsaid : Traced.Calls BusCall.access? r.buses
        (r.setWorkRamTaken (decide ((r.channel t.id).address < 0x2000))).buses [] :=
      .one (c := .setWorkRamTaken _) rfl
    exact ⟨⟨_, _⟩, hsaid.trans (htwo _ _ _), rfl, rfl⟩
  · exact ⟨⟨_, _⟩, htwo _ _ _, rfl, rfl⟩

/-- Where a collecting transfer stands after `k` bytes, with what it has collected since the buses
were in the state `b`. -/
structure Collecting (t : Transfer) (b : Traced β) (k : Nat) (progress : Progress)
    (r : Rig (Traced β)) : Prop where
  progress_eq : progress = .collecting ⟨t.channel.mode, k % t.channel.mode.size⟩
  channel_eq : r.channel t.id = t.channel.countedDown t.step k
  said : t.channel.mayMeetWorkRamPort = false → r.buses.taken = isWorkRamBank t.channel.bank
  collected : ∃ got : List Collected, got.length = k ∧
    Traced.Calls BusCall.access? b r.buses (t.channel.collection t.step got) ∧
    t.channel.Truthful t.step got

theorem Collecting.byte {t : Transfer} {b : Traced β} {k : Nat} {progress : Progress}
    {r : Rig (Traced β)} (h : Collecting t b k progress r) :
    Collecting t b (k + 1) (t.moveByte progress r).1 (t.quietByte progress r) := by
  obtain ⟨hprogress, hchannel, hsaid, got, hlength, hcalls, htruthful⟩ := h
  subst hprogress hlength
  obtain ⟨byte, hbyte, hword, hleft⟩ :=
    t.collectByte_calls ⟨t.channel.mode, got.length % t.channel.mode.size⟩ r
  rw [hchannel] at hbyte hword
  have hbuses : (t.quietByte (.collecting ⟨t.channel.mode, got.length % t.channel.mode.size⟩)
      r).buses = (t.collectByte ⟨t.channel.mode, got.length % t.channel.mode.size⟩ r).buses := rfl
  refine ⟨?_, ?_, ?_, got ++ [byte], List.length_append, ?_, htruthful.concat ?_⟩
  · exact congrArg Progress.collecting (UnitCursor.advance_mod t.channel.mode got.length)
  · rw [Transfer.channel_quietByte, hchannel, Channel.countDown_countedDown]
  · intro hmeets
    rw [hmeets, if_neg Bool.false_ne_true, hsaid hmeets] at hword
    rw [hbuses, hleft, hword]
  · rw [hbuses, Channel.collection_concat]
    exact hcalls.trans hbyte
  · intro hport
    have hregister : t.channel.register
        (UnitCursor.offset ⟨t.channel.mode, got.length % t.channel.mode.size⟩) = 0x2180 := hport
    have hplace := Channel.isWorkRam_of_port (UnitCursor.offset_le _) hregister
      (t.channel.offsetAt t.step got.length)
    rw [hword, hplace]
    cases hmeets : t.channel.mayMeetWorkRamPort with
    | true => rfl
    | false => exact hsaid hmeets

/-! ### A run without events -/

namespace Host

variable {κ : Type}

/-- A collecting transfer begins with its word on work RAM, and nothing has been collected. -/
theorem prepare_collecting (h : Host κ (Traced β)) (i : ChannelId)
    (hreverse : (h.rig.channel i).control.reverse = true) :
    ∃ progress start, h.prepare i = (⟨i, h.rig.channel i, h.addressStep i⟩, progress, start) ∧
      Collecting ⟨i, h.rig.channel i, h.addressStep i⟩ h.rig.buses 0 progress start.rig ∧
      start.rig.cycles = h.rig.cycles + slowAccess ∧ start.schedule = h.schedule ∧
      start.rig.controller.activity.ranInside = h.rig.controller.activity.ranInside := by
  have hmoving := Channel.feedsWorkRamItself_of_reverse hreverse
  obtain ⟨d, hd⟩ := (h.noteStart i).takeDecoderReady_snd
  generalize hready : (h.noteStart i).takeDecoderReady.2.spend slowAccess = ready
  have hbuses : ready.rig.buses = h.rig.buses := by rw [← hready, hd]; rfl
  have hchannel : ready.rig.channel i = h.rig.channel i := by rw [← hready, hd]; rfl
  generalize ht : (⟨i, h.rig.channel i, h.addressStep i⟩ : Transfer) = t
  have hid : t.id = i := by rw [← ht]
  have htc : t.channel = h.rig.channel i := by rw [← ht]
  have hprep : h.prepare i = (t, (t.beginCollecting ready.rig).1,
      { ready with rig := (t.beginCollecting ready.rig).2 }) := by
    simp only [prepare, hmoving, Bool.false_eq_true, if_false, isDecoded_eq, Transfer.begin,
      hreverse, if_true, hready]
    rw [← ht, addressStep, hmoving]
    rfl
  have hbegun : ready.rig.Keeps (t.beginCollecting ready.rig).2 := by
    have hkept := keeps_begin t false ready.rig
    rwa [Transfer.begin, htc, if_pos hreverse] at hkept
  refine ⟨_, _, hprep, ⟨?_, ?_, ?_, [], rfl, ?_, fun k byte hk => by cases hk⟩, ?_, ?_, ?_⟩
  · rw [Nat.zero_mod]
    rfl
  · rw [hbegun.channel, hid, hchannel, htc, Channel.countedDown_zero]
  · intro hmeets
    unfold Transfer.beginCollecting
    rw [hmeets, if_neg Bool.false_ne_true]
    rfl
  · rw [← hbuses]
    unfold Transfer.beginCollecting
    dsimp only
    split
    · exact .of_eq rfl
    · exact .one (c := .setWorkRamTaken _) rfl
  · have hcycles := t.cycles_begin false ready.rig
    rw [Transfer.begin, htc, if_pos hreverse] at hcycles
    show (t.beginCollecting ready.rig).2.cycles = _
    rw [hcycles, ← hready, hd]
    rfl
  · rw [← hready, hd]
    rfl
  · show (t.beginCollecting ready.rig).2.controller.activity.ranInside = _
    rw [hbegun.ranInside, ← hready, hd]
    rfl

variable [Schedule κ (Traced β)]

/-- A collecting transfer that is not interrupted comes to its end, and has collected all its bytes
with the address moving by its step. -/
theorem runChannel_collecting (h : Host κ (Traced β)) (i : ChannelId)
    (hreverse : (h.rig.channel i).control.reverse = true)
    (hquiet : h.Quiet (slowAccess + slowAccess * (h.rig.channel i).length))
    (hrest : i ∉ h.rig.controller.activity.ranInside) :
    (h.runChannel i).1 = true ∧
      (∃ got : List Collected, got.length = (h.rig.channel i).length ∧
        Traced.Calls BusCall.access? h.rig.buses (h.runChannel i).2.rig.buses
          ((h.rig.channel i).collection (h.addressStep i) got) ∧
        (h.rig.channel i).Truthful (h.addressStep i) got) ∧
      (h.runChannel i).2.rig.channel i =
        (h.rig.channel i).countedDown (h.addressStep i) (h.rig.channel i).length := by
  obtain ⟨progress, start, hprep, hbegun, hcycles, hschedule, hran⟩ :=
    h.prepare_collecting i hreverse
  generalize ht : (⟨i, h.rig.channel i, h.addressStep i⟩ : Transfer) = t at hprep hbegun
  have hid : t.id = i := by rw [← ht]
  have hquiet' : start.Quiet (slowAccess * (h.rig.channel i).length) := by
    intro position hp
    have hdue := hquiet position (by rw [← hp]; unfold Host.nextEvent; rw [hschedule])
    rw [hcycles]
    omega
  have hrest' : t.id ∉ start.rig.controller.activity.ranInside := by rwa [hid, hran]
  obtain ⟨hdone, progress', hlast⟩ := moveBytes_quiet
    (P := fun k _ => Collecting t h.rig.buses k) (fun _ _ _ _ hk => hk.byte)
    (h.rig.channel i).length 0 hbegun hquiet' hrest'
  rw [Nat.zero_add] at hlast
  rw [runChannel_eq, hprep]
  dsimp only
  generalize moveBytes t (h.rig.channel i).length progress start = moved at hdone hlast
  obtain ⟨-, hchannel, -, got, hlength, hcalls, htruthful⟩ := hlast
  rw [← ht] at hchannel hcalls htruthful
  refine ⟨hdone, ⟨got, hlength, ?_, htruthful⟩, ?_⟩
  · have hended : Traced.Calls BusCall.access? moved.2.rig.buses
        (Buses.setWorkRamTaken false moved.2.rig.buses) [] :=
      .one (c := .setWorkRamTaken false) rfl
    have hall := hcalls.trans hended
    rw [List.append_nil] at hall
    show Traced.Calls _ _ (conclude _ _ moved.2).rig.buses _
    rwa [buses_conclude]
  · show (conclude _ _ moved.2).rig.channel i = _
    rw [channel_conclude]
    exact hchannel

end Host

/-- A transfer to the A-bus that is not interrupted, and leaves the stream decoder out, comes to its
end.  It has read each register and written each byte in turn as its reference says, whatever the
registers answered; whatever came from the work RAM port came with the truth about work RAM.  It
leaves a count of zero and the address behind its last byte. -/
theorem runChannel_collects_reference {κ : Type} [Schedule κ (Traced β)] (h : Host κ (Traced β))
    (i : ChannelId) (hreverse : (h.rig.channel i).control.reverse = true)
    (hdecoder : h.isDecoded i = false)
    (hquiet : h.Quiet (slowAccess + slowAccess * (h.rig.channel i).length))
    (hrest : i ∉ h.rig.controller.activity.ranInside) :
    (h.runChannel i).1 = true ∧
      (∃ got : List Collected, got.length = (h.rig.channel i).length ∧
        Traced.Calls BusCall.access? h.rig.buses (h.runChannel i).2.rig.buses
          ((h.rig.channel i).collection (h.rig.channel i).control.step got) ∧
        (h.rig.channel i).Truthful (h.rig.channel i).control.step got) ∧
      (h.runChannel i).2.rig.channel i =
        { h.rig.channel i with
          count := 0
          address := (h.rig.channel i).sourceOffset (h.rig.channel i).length } := by
  have hstep : h.addressStep i = (h.rig.channel i).control.step := by
    rw [Host.addressStep, Channel.feedsWorkRamItself_of_reverse hreverse, hdecoder]
    rfl
  obtain ⟨hdone, hcollected, hchannel⟩ := h.runChannel_collecting i hreverse hquiet hrest
  rw [hstep] at hcollected hchannel
  refine ⟨hdone, hcollected, ?_⟩
  rw [hchannel, Channel.countedDown, Channel.count_sub_length]
  rfl

/-! ### A transfer from the work RAM port -/

section

attribute [local instance] Recorder.plain

/-- Four bytes from the register below the work RAM port and the port itself, in turns, for the
places at which a system bank leaves work RAM behind.  Registers count up when they are read. -/
def leavingWorkRam : Host Beam (Traced Recorder) where
  rig :=
    { controller := (Controller.powerOn .standard).setChannel (channelNumber 4)
        { Channel.powerOn with
          control := .ofByte 0x81, port := 0x7F, bank := 0x00, address := 0x1FFE, count := 4 }
      buses := ⟨{ Recorder.blank true with
        registers := Memory.zero.load 0x7F [0x11, 0x22] }, false, []⟩
      cycles := 0 }
  schedule := Beam.powerOn.await .endLine Beam.cyclesPerLine

theorem leavingWorkRam_collects :
    (leavingWorkRam.runChannel 4).1 = true ∧
      (∃ got : List Collected, got.length = (leavingWorkRam.rig.channel 4).length ∧
        Traced.Calls BusCall.access? leavingWorkRam.rig.buses
          (leavingWorkRam.runChannel 4).2.rig.buses
          ((leavingWorkRam.rig.channel 4).collection .up got) ∧
        (leavingWorkRam.rig.channel 4).Truthful .up got) ∧
      (leavingWorkRam.runChannel 4).2.rig.channel 4 =
        { leavingWorkRam.rig.channel 4 with count := 0, address := 0x2002 } := by
  have hquiet : leavingWorkRam.Quiet
      (slowAccess + slowAccess * (leavingWorkRam.rig.channel 4).length) := by
    intro position hp
    cases hp
    decide
  have hrest : leavingWorkRam.rig.Resting := ⟨rfl, rfl⟩
  exact runChannel_collects_reference leavingWorkRam 4 (by decide) (by decide) hquiet
    (hrest.notMem 4)

/-- The bytes behind the end of work RAM come from the port while work RAM is free. -/
example : (leavingWorkRam.runChannel 4).2.rig.buses.calls.filterMap BusCall.access? =
    (leavingWorkRam.rig.channel 4).collection .up
      [⟨0x11, true⟩, ⟨0x22, true⟩, ⟨0x12, false⟩, ⟨0x23, false⟩] := by
  decide +kernel

end

end DmaController
