import DmaController.Console.Basic
import DmaController.Proofs.LineTransfer.Requests
import DmaController.Proofs.LineTransfer.Setup
import DmaController.Proofs.Transfer.Timeline

/-! # The registers that transfers own

Each kind of transfer writes registers of its own and leaves all others.  Lines and frames own the
place in the table and in the data of their channels and the state of the entry there, and never
write the setup (`Channel.SetAs`).  A general transfer counts its own channel down
(`Rig.CountsDown`), with every byte and in no other way, as long as no event has its turn.

What each of them leaves is put together in `transfers_leave_others`. -/

namespace DmaController

/-- From `r` to `r'` no more has changed of the channels than count and address of channel `i`, and
the sets and the settings have stayed. -/
structure Rig.CountsDown {β : Type} (i : ChannelId) (r r' : Rig β) : Prop
    extends r.SameSets r' where
  settings : r'.controller.settings = r.controller.settings
  others : ∀ j, j ≠ i → r'.channel j = r.channel j
  own : ∃ count address, r'.channel i = { r.channel i with count := count, address := address }

namespace Rig.CountsDown

variable {β : Type} {i : ChannelId} {r r' r'' : Rig β}

theorem trans (h : r.CountsDown i r') (h' : r'.CountsDown i r'') : r.CountsDown i r'' where
  toSameSets := h.toSameSets.trans h'.toSameSets
  settings := h'.settings.trans h.settings
  others j hj := (h'.others j hj).trans (h.others j hj)
  own := by
    obtain ⟨count, address, hown⟩ := h.own
    obtain ⟨count', address', hown'⟩ := h'.own
    exact ⟨count', address', by rw [hown', hown]⟩

theorem of_channels (hsets : r.SameSets r')
    (hsettings : r'.controller.settings = r.controller.settings)
    (hchannel : ∀ j, r'.channel j = r.channel j) : r.CountsDown i r' :=
  ⟨hsets, hsettings, fun j _ => hchannel j,
    (r.channel i).count, (r.channel i).address, hchannel i⟩

theorem of_keeps (h : r.Keeps r') : r.CountsDown i r' :=
  .of_channels (.of_keeps h) h.settings h.channel

theorem countDown (r : Rig β) (i : ChannelId) (step : AddressStep) :
    r.CountsDown i (r.modifyChannel i (·.countDown step)) where
  toSameSets := ⟨rfl, rfl, rfl⟩
  settings := rfl
  others j hj := by rw [channel_modifyChannel, if_neg (Ne.symm hj)]
  own := ⟨_, _, by rw [channel_modifyChannel, if_pos rfl]; rfl⟩

end Rig.CountsDown

namespace Host

variable {κ β : Type} [Buses β]

theorem countsDown_byteDone (t : Transfer) (progress : Progress) (h : Host κ β) :
    h.rig.CountsDown t.id (h.byteDone t progress).rig :=
  (Rig.CountsDown.of_keeps (keeps_moveByte t progress h.rig)).trans (.countDown _ t.id t.step)

variable [Schedule κ β]

/-- Without events, the bytes of a transfer count its channel down, whether or not it is stopped. -/
theorem countsDown_moveBytes (t : Transfer) (n : Nat) (progress : Progress) {h : Host κ β}
    (hq : h.Quiet (slowAccess * n)) : h.rig.CountsDown t.id (moveBytes t n progress h).2.rig := by
  induction n generalizing progress h with
  | zero => exact .of_keeps (.refl h.rig)
  | succ n ih =>
      have hcycles : (h.byteDone t progress).rig.cycles = h.rig.cycles :=
        t.cycles_moveByte progress h.rig
      have hq₁ : (h.byteDone t progress).Quiet slowAccess := by
        intro position hp
        have hdue := hq position hp
        rw [hcycles]
        simp only [slowAccess] at hdue ⊢
        omega
      have hpassed := passByte_snd_of_quiet (i := t.id) hq₁
      have hbyte : h.rig.CountsDown t.id ((h.byteDone t progress).passByte t.id).2.rig := by
        rw [hpassed]
        exact (countsDown_byteDone t progress h).trans
          (.of_channels ⟨rfl, rfl, rfl⟩ rfl fun _ => rfl)
      have hq₂ : ((h.byteDone t progress).passByte t.id).2.Quiet (slowAccess * n) := by
        rw [hpassed]
        intro position hp
        have hdue := hq position hp
        show (h.byteDone t progress).rig.cycles + slowAccess + slowAccess * n < position
        rw [hcycles]
        simp only [slowAccess] at hdue ⊢
        omega
      rw [moveBytes_succ]
      split
      · exact hbyte.trans (ih _ hq₂)
      · exact hbyte

omit [Schedule κ β] in
theorem countsDown_prepare (h : Host κ β) (i : ChannelId) :
    h.rig.CountsDown i (h.prepare i).2.2.rig := by
  obtain ⟨d, hkeeps⟩ := h.keeps_prepare i
  have hnoted : h.rig.CountsDown i (((h.noteStart i).modifyController fun k =>
      { k with decoder := d }).spend slowAccess).rig :=
    .of_channels ⟨rfl, rfl, rfl⟩ rfl fun _ => rfl
  exact hnoted.trans (.of_keeps hkeeps)

theorem countsDown_conclude (idle done : Bool) (h : Host κ β) (i : ChannelId) :
    h.rig.CountsDown i (h.conclude idle done).rig := by
  have hcontroller := controller_conclude idle done h
  refine .of_channels ⟨?_, ?_, ?_⟩ ?_ (channel_conclude idle done h) <;> rw [hcontroller]

/-- Nor does its beginning or its end change anything else. -/
theorem countsDown_runChannel {h : Host κ β} {i : ChannelId}
    (hq : h.Quiet (slowAccess + slowAccess * (h.rig.channel i).length)) :
    h.rig.CountsDown i (h.runChannel i).2.rig := by
  have hq' : (h.prepare i).2.2.Quiet (slowAccess * (h.rig.channel i).length) := by
    intro position hp
    rw [nextEvent, schedule_prepare] at hp
    have hdue := hq position hp
    rw [cycles_prepare]
    omega
  have hmoved := countsDown_moveBytes (h.prepare i).1 (h.rig.channel i).length (h.prepare i).2.1 hq'
  rw [prepare_id] at hmoved
  rw [runChannel_eq]
  exact ((h.countsDown_prepare i).trans hmoved).trans (countsDown_conclude _ _ _ i)

end Host

/-- Whatever the state, the buses and the events to come:

* a line leaves the channels alone that it is not given, and those that it is given keep their
  setup, with the count unless they are indirect;
* so does a frame with the channels that are enabled, and all it takes from the others is their
  pending unit;
* a general transfer that ends before an event is due changes nothing but count and address of its
  own channel: no other channel, none of the sets of channels and no settings. -/
theorem transfers_leave_others {κ β : Type} [Buses β] [Schedule κ β] (h : Host κ β)
    (m : ChannelMask) (i : ChannelId) :
    (i ∉ m → (h.rig.runLine m).2.channel i = h.rig.channel i) ∧
      (i ∈ m → (h.rig.channel i).SetAs ((h.rig.runLine m).2.channel i)) ∧
      (i ∉ h.rig.controller.enabled →
        h.rig.beginFrame.channel i = { h.rig.channel i with pending := false }) ∧
      (i ∈ h.rig.controller.enabled →
        (h.rig.channel i).SetAs (h.rig.beginFrame.channel i)) ∧
      (h.Quiet (slowAccess + slowAccess * (h.rig.channel i).length) →
        h.rig.CountsDown i (h.runChannel i).2.rig) :=
  ⟨Rig.channel_runLine_of_notMem, fun _ => h.rig.setAs_runLine m i,
    Rig.channel_beginFrame_of_notMem, fun _ => h.rig.setAs_beginFrame i, Host.countsDown_runChannel⟩

/-- Channel 0 is to run with the lines, and channel 1 has three bytes to move and a unit pending. -/
def sharing : Console where
  rig :=
    { controller :=
        { ((Controller.powerOn .standard).setChannel (channelNumber 0)
              { Channel.powerOn with control := .ofByte 0x01, address := 0x1000, bank := 0x7E,
                                     table := 0x1001, lines := 1 }).setChannel (channelNumber 1)
            { Channel.powerOn with control := .ofByte 0x00, port := 0x18, address := 0x2000,
                                   bank := 0x7E, count := 3, pending := true } with
          enabled := ⟨1⟩
          active := ⟨1⟩ }
      buses := .powerOn
      cycles := 0 }
  schedule := Beam.powerOn.await .endLine Beam.cyclesPerLine

theorem sharing_left_apart :
    (sharing.rig.runLine ⟨1⟩).2.channel 1 = sharing.rig.channel 1 ∧
      (sharing.rig.channel 0).SetAs ((sharing.rig.runLine ⟨1⟩).2.channel 0) ∧
      sharing.rig.beginFrame.channel 1 = { sharing.rig.channel 1 with pending := false } ∧
      (sharing.rig.channel 0).SetAs (sharing.rig.beginFrame.channel 0) ∧
      sharing.rig.CountsDown 1 (sharing.runChannel 1).2.rig := by
  have hquiet : sharing.Quiet (slowAccess + slowAccess * (sharing.rig.channel 1).length) := by
    intro position hp
    cases hp
    decide
  obtain ⟨-, hline, -, hframe, -⟩ := transfers_leave_others sharing ⟨1⟩ 0
  obtain ⟨hline', -, hframe', -, htransfer⟩ := transfers_leave_others sharing ⟨1⟩ 1
  exact ⟨hline' (by decide), hline (by decide), hframe' (by decide), hframe (by decide),
    htransfer hquiet⟩

end DmaController
