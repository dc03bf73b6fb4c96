import DmaController.Proofs.Console.Level
import DmaController.Proofs.Console.Port
import Mathlib.Data.List.Forall2

/-! # Line transfers beside general ones

A general transfer is *harmless* to line transfers on other channels if it sends, from outside of
the register area, and reaches no register of the work RAM port (`Channel.Harmless`).  Its source
then is direct access to memory or the stream decoder throughout (`Transfer.KeepsOff`), and its
writes leave memory and port alone, so a byte of it leaves the console level
(`Transfer.KeepsOff.byteDone`).

`Console.Meets D m es m'` says that from `m` to `m'` the events of `es` were carried out, each at
its console, and that all else left the console level but for channels of `D`.  A row of harmless
transfers meets its events so (`Console.meets_write`), and so does idling (`Console.meets_idle`).
Two consoles that are level meet the same events, however much later the one may come to them than
the other (`Console.Meets.level`); hence starting the transfers is nothing to the lines
(`transfers_unnoticed`). -/

namespace DmaController

/-- The general transfer of the channel sends, from outside of the register area, and to registers
other than those of the work RAM port. -/
structure Channel.Harmless (c : Channel) : Prop where
  forward : c.control.reverse = false
  outside : ∀ k < c.length, (Address.of c.bank (c.sourceOffset k)).inRegisterArea = false
  registers : ∀ k < c.length, ¬ (0x2180 ≤ c.targetRegister k ∧ c.targetRegister k ≤ 0x2183)

instance (c : Channel) : Decidable c.Harmless :=
  decidable_of_iff
    (c.control.reverse = false ∧
      (∀ k < c.length, (Address.of c.bank (c.sourceOffset k)).inRegisterArea = false) ∧
      ∀ k < c.length, ¬ (0x2180 ≤ c.targetRegister k ∧ c.targetRegister k ≤ 0x2183))
    ⟨fun ⟨hf, ho, hr⟩ => ⟨hf, ho, hr⟩, fun h => ⟨h.forward, h.outside, h.registers⟩⟩

/-! ### One byte -/

namespace Route

/-- Only the first register of the port has the entrance of the port. -/
theorem choose_ne_workRam {c : Channel} (hc : c.Harmless) (remapped : Bool) :
    choose c.mode c.port remapped ≠ .workRam := by
  have hport : c.port ≠ 0x80 := by
    intro hport
    have hfirst := hc.registers 0 c.length_pos
    unfold Channel.targetRegister Channel.register at hfirst
    rw [hport, Nat.zero_mod] at hfirst
    cases hmode : c.mode <;> rw [hmode] at hfirst <;> exact hfirst (by decide)
  unfold choose
  rw [if_neg hport]
  split
  · repeat' split
    all_goals nofun
  · split <;> nofun

/-- Away from the port, a byte is delivered without effect on memory and port. -/
theorem level_deliver {route : Route} (hroute : route ≠ .workRam) {a : UInt16}
    (ha : ¬ (0x2180 ≤ a ∧ a ≤ 0x2183)) (o v : UInt8) (taken : Bool) (r : Rig Board) :
    r.buses.Level false (route.deliver a o v taken r).buses := by
  have hvideo : ∀ (high : Bool) (b : Board),
      b.Level false (Buses.writeVideo high false v b) := by
    intro high b
    refine Board.level_writeRegister ?_ v b
    cases high <;> decide
  cases route with
  | ordinary => exact Board.level_writeRegister ha v _
  | sprite => exact Board.level_writeRegister (by decide) v _
  | video high remapped => exact hvideo high _
  | videoPair remapped =>
      unfold deliver
      dsimp only
      split
      · have hleft : r.buses.Level false { r.buses with openBus := v } := ⟨rfl, rfl, nofun⟩
        exact hleft.trans (hvideo (o == 1) { r.buses with openBus := v })
      · exact hvideo _ _
  | colour => exact Board.level_writeRegister (by decide) v _
  | workRam => exact absurd rfl hroute

end Route

theorem Rig.Keeps.level {β : Type} {r r' : Rig β} (h : r.Keeps r') (D : ChannelMask) :
    r.controller.Level D r'.controller := by
  obtain ⟨taken, hcontroller⟩ := h
  rw [hcontroller]
  exact ⟨rfl, rfl, rfl, rfl, fun _ => rfl⟩

namespace Transfer

/-- The cursor stands at a byte of the transfer from which there are `n` bytes to go. -/
def Remain (t : Transfer) (n : Nat) (place : UnitCursor) : Prop :=
  ∃ d, place = ⟨t.channel.mode, d % t.channel.mode.size⟩ ∧ d + n ≤ t.channel.length

/-- A harmless transfer with `n` bytes to go sends from direct access, and if they do not come out
of the stream decoder, all of them lie outside of the register area. -/
structure Shielded (t : Transfer) (n : Nat) (place : UnitCursor) (s : Stretch) (r : Rig Board) :
    Prop where
  remain : t.Remain n place
  routed : s.Routed t.channel
  direct : s.source ≠ .mapped
  decoded : s.source = .decoder → n ≤ s.left
  outside : s.source ≠ .decoder → ∀ k < n, Address.inRegisterArea (.of t.channel.bank
    ((r.channel t.id).address + UInt16.ofNat k * t.step.word)) = false

/-- A transfer with `n` bytes to go moves nothing, or is shielded. -/
def KeepsOff (t : Transfer) (n : Nat) : Progress → Rig Board → Prop
  | .idle, _ => True
  | .collecting _, _ => False
  | .sending place _ s, r => t.Shielded n place s r

variable {t : Transfer} {n : Nat}

/-- A stretch that is opened outside of the register area has direct access. -/
theorem direct_openStretch (t : Transfer) {o : UInt16}
    (ho : Address.inRegisterArea (.of t.channel.bank o) = false) (left : Nat) (r : Rig Board) :
    ∃ base, (t.openStretch o left r).1.source = .block base := by
  obtain ⟨c, hcell⟩ := Region.cell?_of_outside ho
  rw [source_openStretch]
  refine ⟨⟨UInt64.ofNat (c - (Address.offset (.of t.channel.bank o)).toNat)⟩, ?_⟩
  show ((Region.of (.of t.channel.bank o)).cell?.map _).elim _ _ = _
  rw [hcell]
  rfl

theorem shielded_openStretch {place : UnitCursor} {o : UInt16} {r r' : Rig Board}
    (hremain : t.Remain n place)
    (ho : Address.inRegisterArea (.of t.channel.bank o) = false)
    (houtside : ∀ k < n, Address.inRegisterArea (.of t.channel.bank
      ((r'.channel t.id).address + UInt16.ofNat k * t.step.word)) = false) (left : Nat) :
    t.Shielded n place (t.openStretch o left r).1 r' := by
  obtain ⟨base, hblock⟩ := t.direct_openStretch ho left r
  refine ⟨hremain, t.routed_openStretch _ _ r, ?_, ?_, fun _ => houtside⟩
  · rw [hblock]
    nofun
  · rw [hblock]
    nofun

/-- The next byte is sent from a stretch that is shielded as well. -/
theorem Shielded.currentStretch {place : UnitCursor} {s : Stretch} {r : Rig Board}
    (h : t.Shielded (n + 1) place s r) :
    t.Shielded (n + 1) place (t.currentStretch s r).1 r ∧
      r.buses.Level false (t.currentStretch s r).2.buses := by
  unfold Transfer.currentStretch
  split
  · rename_i hleft
    -- The decoder has no stretch that is used up while there are bytes to go.
    have hsource : s.source ≠ .decoder := by
      intro hdecoder
      have := h.decoded hdecoder
      omega
    have houtside := h.outside hsource
    have hfirst : Address.inRegisterArea (.of t.channel.bank (r.channel t.id).address) = false := by
      simpa using houtside 0 (Nat.succ_pos n)
    exact ⟨shielded_openStretch h.remain hfirst houtside blockSize, ⟨rfl, rfl, nofun⟩⟩
  · exact ⟨h, .refl _⟩

/-- The byte is sent, and nothing is seen of it beside the registers. -/
theorem Shielded.sendByte {place : UnitCursor} {s : Stretch} {r : Rig Board}
    (h : t.Shielded (n + 1) place s r) (hc : t.channel.Harmless) (position : UInt16)
    (r' : Rig Board) : r'.buses.Level false (t.sendByte place position s r').buses := by
  have hplain : s.route ≠ .workRam := by
    rcases h.routed with hordinary | ⟨remapped, hchosen⟩
    · rw [hordinary]
      nofun
    · rw [hchosen]
      exact Route.choose_ne_workRam hc remapped
  obtain ⟨d, hplace, hd⟩ := h.remain
  have hregister := hc.registers d (by omega)
  rw [show t.channel.targetRegister d = t.channel.register place.offset from hplace ▸ rfl]
    at hregister
  have hfetched : (t.fetch s.source position r').2.buses = r'.buses := by
    cases hsource : s.source with
    | mapped => exact absurd hsource h.direct
    | block base => rfl
    | decoder => rfl
  rw [← hfetched]
  exact Route.level_deliver hplain hregister place.offset _ s.taken _

/-- A byte of a harmless transfer leaves the console level, and the transfer with one byte less to
go. -/
theorem KeepsOff.byteDone {progress : Progress} {h : Console}
    (hs : t.KeepsOff (n + 1) progress h.rig) (hc : t.channel.Harmless) :
    h.Level (.single t.id) (h.byteDone t progress) ∧
      t.KeepsOff n (t.moveByte progress h.rig).1 (h.byteDone t progress).rig := by
  have hcontroller := (Host.keeps_moveByte t progress h.rig).level (.single t.id)
  have hcounted := hcontroller.setChannel_right (ChannelMask.mem_single.mpr rfl)
    (((t.moveByte progress h.rig).2.channel t.id).countDown t.step)
  have hlevel (hbuses : h.rig.buses.Level false (t.moveByte progress h.rig).2.buses) :
      h.Level (.single t.id) (h.byteDone t progress) := ⟨.refl _, hcounted, hbuses⟩
  cases progress with
  | idle => exact ⟨hlevel (.refl _), trivial⟩
  | collecting place => exact False.elim hs
  | sending place position s =>
      obtain ⟨hcurrent, hopened⟩ := Shielded.currentStretch hs
      have hsent := hcurrent.sendByte hc position (t.currentStretch s h.rig).2
      refine ⟨hlevel (hopened.trans hsent), ?_, hcurrent.routed, hcurrent.direct, ?_, ?_⟩
      · obtain ⟨d, rfl, hd⟩ := hcurrent.remain
        exact ⟨d + 1, UnitCursor.advance_mod _ d, by omega⟩
      · intro hdecoder
        have := hcurrent.decoded hdecoder
        show n ≤ (t.currentStretch s h.rig).1.left - 1
        omega
      · intro hblock k hk
        have hnext := hcurrent.outside hblock (k + 1) (by omega)
        rw [t.step.word_succ, UInt16.add_comm (UInt16.ofNat k * t.step.word),
          ← UInt16.add_assoc] at hnext
        rw [Host.channel_byteDone, if_pos rfl]
        exact hnext

/-- Of the console, this is a matter of the address that the channel has come to. -/
theorem KeepsOff.congr {progress : Progress} {r r' : Rig Board} (h : t.KeepsOff n progress r)
    (haddress : (r'.channel t.id).address = (r.channel t.id).address) :
    t.KeepsOff n progress r' := by
  cases progress with
  | idle => trivial
  | collecting place => exact h
  | sending place position s =>
      refine ⟨h.remain, h.routed, h.direct, h.decoded, ?_⟩
      rw [haddress]
      exact h.outside

/-- So a harmless transfer begins, with all of its bytes to go. -/
theorem keepsOff_begin (hc : t.channel.Harmless) (decoded : Bool) {r : Rig Board}
    (hchannel : r.channel t.id = t.channel)
    (hstep : decoded = false → t.step = t.channel.control.step) :
    r.buses.Level false (t.begin decoded r).2.buses ∧
      t.KeepsOff t.channel.length (t.begin decoded r).1 (t.begin decoded r).2 := by
  have hall : t.Remain t.channel.length (.start t.channel.mode) :=
    ⟨0, by rw [Nat.zero_mod]; rfl, by omega⟩
  unfold begin
  rw [hc.forward, if_neg Bool.false_ne_true]
  cases decoded with
  | true =>
      refine ⟨⟨rfl, rfl, nofun⟩, hall, .inr ⟨_, rfl⟩, ?_, fun _ => Nat.le_refl _, ?_⟩
      · nofun
      · exact fun hsource => absurd rfl hsource
  | false =>
      have hfirst : (Address.of t.channel.bank t.channel.address).inRegisterArea = false := by
        simpa [Channel.sourceOffset] using hc.outside 0 t.channel.length_pos
      refine ⟨⟨rfl, rfl, nofun⟩, shielded_openStretch hall hfirst ?_ _⟩
      have hkept := (Host.keeps_openStretch t t.channel.address
        (t.firstStretch t.channel.address) r).channel t.id
      intro k hk
      rw [show (t.beginSending false r).2.channel t.id = t.channel from hkept.trans hchannel,
        hstep rfl]
      exact hc.outside k hk

end Transfer

/-! ### Events on the way -/

namespace Console

/-- From one console to another these events were carried out, and apart from them nothing changed
that would bring the console off the level, but for channels of `D`. -/
inductive Meets (D : ChannelMask) : Console → List Console → Console → Prop
  | done (m : Console) : Meets D m [] m
  | aside {m m' m'' : Console} {es : List Console} (level : m.Level D m')
      (rest : Meets D m' es m'') : Meets D m es m''
  | event {m m' : Console} {es : List Console} (rest : Meets D (Beam.fire m) es m') :
      Meets D m (m :: es) m'

namespace Meets

variable {D E : ChannelMask} {m m' m'' : Console} {es es' : List Console}

theorem trans (h : Meets D m es m') (h' : Meets D m' es' m'') : Meets D m (es ++ es') m'' := by
  induction h with
  | done m => exact h'
  | aside hlevel _ ih => exact .aside hlevel (ih h')
  | event _ ih => exact .event (ih h')

theorem of_level (h : m.Level D m') : Meets D m [] m' := .aside h (.done m')

/-- Behind the events something else may change as well. -/
theorem before (h : Meets D m es m') (h' : m'.Level D m'') : Meets D m es m'' := by
  have hboth := h.trans (of_level h')
  rwa [List.append_nil] at hboth

theorem mono (h : Meets D m es m') (hE : ∀ {i}, i ∈ D → i ∈ E) : Meets E m es m' := by
  induction h with
  | done m => exact .done m
  | aside hlevel _ ih => exact .aside (hlevel.mono hE) ih
  | event _ ih => exact .event ih

end Meets

variable {D : ChannelMask} {h : Console}

theorem meets_settleWithin (D : ChannelMask) (limit : Nat) (h : Console) :
    Meets D h (Host.settleNotes (fun e => [e]) limit h) (Host.settleWithin limit h) := by
  induction limit generalizing h with
  | zero => exact .done h
  | succ limit ih =>
      unfold Host.settleNotes Host.settleWithin
      split
      · exact .event (ih (Beam.fire h))
      · exact .done h

theorem meets_passByte (D : ChannelMask) (h : Console) (i : ChannelId) :
    Meets D h (Host.settleNotes (fun e => [e]) settleLimit (h.spend slowAccess))
      (h.passByte i).2 := by
  have htaken : Level D (h.spend slowAccess).settle (h.passByte i).2 :=
    ⟨.refl _, ⟨rfl, rfl, rfl, rfl, fun _ => rfl⟩, .refl _⟩
  exact .aside (level_spend D h slowAccess) ((meets_settleWithin D settleLimit _).before htaken)

/-- The bytes of a harmless transfer change nothing but its channel. -/
theorem meets_moveBytes {t : Transfer} (hc : t.channel.Harmless) {n : Nat} {progress : Progress}
    (hs : t.KeepsOff n progress h.rig) :
    Meets (.single t.id) h ((Host.byteNotes (fun e => [e]) t n progress h).flatMap Prod.snd)
      (Host.moveBytes t n progress h).2 := by
  induction n generalizing progress h with
  | zero => exact .done h
  | succ n ih =>
      obtain ⟨hlevel, hleft⟩ := hs.byteDone hc
      have hpassed := meets_passByte (.single t.id) (h.byteDone t progress) t.id
      have hnext := hleft.congr (spares_passByte (h.byteDone t progress) t.id).address
      rw [Host.moveBytes_succ, Host.byteNotes, List.flatMap_cons]
      refine .aside hlevel ?_
      split
      · exact hpassed.trans (ih hnext)
      · rw [List.flatMap_nil, List.append_nil]
        exact hpassed

/-! ### Transfers -/

/-- A harmless transfer has been prepared with all of its bytes to go. -/
theorem keepsOff_prepare (h : Console) {i : ChannelId} (hc : (h.rig.channel i).Harmless) :
    h.rig.buses.Level false (h.prepare i).2.2.rig.buses ∧
      (h.prepare i).1.KeepsOff (h.rig.channel i).length (h.prepare i).2.1
        (h.prepare i).2.2.rig := by
  unfold Host.prepare
  dsimp only
  split
  · exact ⟨.refl _, trivial⟩
  · obtain ⟨d, hready⟩ := (h.noteStart i).takeDecoderReady_snd
    rw [hready]
    generalize ((h.rig.channel i).control.fixed && (h.noteStart i).takeDecoderReady.1) = decoded
    obtain ⟨hbuses, hoff⟩ := Transfer.keepsOff_begin
      (t := ⟨i, h.rig.channel i, if decoded then (h.rig.channel i).control.direction
        else (h.rig.channel i).control.step⟩) hc decoded
      (r := (((h.noteStart i).modifyController fun k => { k with decoder := d }).spend
        slowAccess).rig)
      rfl (fun hplain => if_neg (ne_true_of_eq_false hplain))
    exact ⟨hbuses, hoff⟩

/-- Preparing it is nothing to the lines. -/
theorem level_prepare (h : Console) {i : ChannelId} (hc : (h.rig.channel i).Harmless) :
    h.Level D (h.prepare i).2.2 := by
  obtain ⟨d, taken, hcontroller⟩ := h.keeps_prepare i
  refine ⟨?_, ?_, (keepsOff_prepare h hc).1⟩
  · rw [h.schedule_prepare]
    exact .refl _
  · rw [hcontroller]
    exact ⟨rfl, rfl, rfl, rfl, fun _ => rfl⟩

/-- Neither is the end of a transfer, which moves the interrupt at most. -/
theorem level_conclude (idle done : Bool) (h : Console) : h.Level D (h.conclude idle done) := by
  refine ⟨?_, ?_, ?_⟩
  · rw [(Host.alike_conclude idle done h).eq]
    exact ⟨rfl, rfl, rfl⟩
  · rw [Host.controller_conclude]
    exact ⟨rfl, rfl, rfl, rfl, fun _ => rfl⟩
  · rw [Host.buses_conclude]
    exact ⟨rfl, rfl, nofun⟩

theorem meets_runChannel {i : ChannelId} (hc : (h.rig.channel i).Harmless) :
    Meets (.single i) h (h.events i) (h.runChannel i).2 := by
  have hlevel := level_prepare (D := .single i) h hc
  have hchannel := h.prepare_channel i
  obtain ⟨-, hoff⟩ := keepsOff_prepare h hc
  have hid := h.prepare_id i
  rw [Host.runChannel_eq]
  unfold Host.events Host.transferNotes
  generalize h.prepare i = prepared at hlevel hchannel hoff hid ⊢
  obtain ⟨t, progress, start⟩ := prepared
  obtain rfl := hid
  have hmoved := meets_moveBytes (show t.channel.Harmless from hchannel ▸ hc) hoff
  exact .aside hlevel (hmoved.before (level_conclude _ _ _))

/-- Events may take the pending unit away from a channel on which no lines are run, which is no
matter to its general transfer. -/
theorem harmless_fire {m : Console} (hlines : m.rig.LinesOutside D) {j : ChannelId} (hj : j ∈ D)
    (hc : (m.rig.channel j).Harmless) : ((Beam.fire m).rig.channel j).Harmless := by
  have henabled : j ∉ m.rig.controller.enabled := fun hmem => (hlines.enabled j hmem).1 hj
  refine Beam.fire_induction (P := fun r => (r.channel j).Harmless) hc ?_ ?_ fun _ => hc
  · rw [Rig.channel_beginFrame_of_notMem henabled]
    exact ⟨hc.forward, hc.outside, hc.registers⟩
  · rw [Rig.channel_runLine_of_notMem (hlines.notMem_active henabled)]
    exact hc

namespace Meets

variable {E : ChannelMask} {m m' : Console} {es : List Console}

theorem linesOutside (h : Meets E m es m') (hE : ∀ {i}, i ∈ E → i ∈ D)
    (hlines : m.rig.LinesOutside D) : m'.rig.LinesOutside D := by
  induction h with
  | done m => exact hlines
  | aside hlevel _ ih => exact ih (hlines.level (hlevel.mono hE).rig)
  | event _ ih => exact ih (linesOutside_fire hlines)

/-- The transfers of other channels are as harmless as before. -/
theorem harmless (h : Meets E m es m') (hE : ∀ {i}, i ∈ E → i ∈ D)
    (hlines : m.rig.LinesOutside D) {j : ChannelId} (hj : j ∈ D) (hjE : j ∉ E)
    (hc : (m.rig.channel j).Harmless) : (m'.rig.channel j).Harmless := by
  induction h with
  | done m => exact hc
  | aside hlevel _ ih =>
      refine ih (hlines.level (hlevel.mono hE).rig) ?_
      rw [hlevel.rig.channel hjE]
      exact hc
  | event _ ih => exact ih (linesOutside_fire hlines) (harmless_fire hlines hj hc)

end Meets

/-- One after the other, harmless transfers change nothing but their channels. -/
theorem meets_turns {l : List ChannelId} (hl : l.Nodup) (hD : ∀ i ∈ l, i ∈ D) {h : Console}
    (hlines : h.rig.LinesOutside D) (hc : ∀ i ∈ l, (h.rig.channel i).Harmless) :
    Meets D h ((Rig.turnsOf (fun h i => (h.runChannel i).2) l h).flatMap fun t => t.1.events t.2)
      (l.foldl (fun h i => (h.runChannel i).2) h) := by
  induction l generalizing h with
  | nil => exact .done h
  | cons i l ih =>
      obtain ⟨hi, hl⟩ := List.nodup_cons.mp hl
      obtain ⟨hfirst, hrest⟩ := List.forall_mem_cons.mp hc
      obtain ⟨hiD, hlD⟩ := List.forall_mem_cons.mp hD
      have hE : ∀ {j}, j ∈ ChannelMask.single i → j ∈ D :=
        fun hj => ChannelMask.mem_single.mp hj ▸ hiD
      have hran := meets_runChannel hfirst
      rw [Rig.turnsOf, List.flatMap_cons]
      refine (hran.mono hE).trans (ih hl hlD (hran.linesOutside hE hlines) fun j hj => ?_)
      have hji : j ∉ ChannelMask.single i := fun hji => hi (ChannelMask.mem_single.mp hji ▸ hj)
      exact hran.harmless hE hlines (hlD j hj) hji (hrest j hj)

/-- The consoles at the events that a register write of the processor meets. -/
def writeEvents (m : Console) (a : Address) (v : UInt8) : List Console :=
  if isControllerAddress a then
    (m.startedBy (Address.offset a) v).flatMap fun t => t.1.events t.2
  else []

theorem meets_write {m : Console} {a : Address} {v : UInt8}
    (ha : isControllerAddress a = true ∧ Address.offset a = 0x420B)
    (hlines : m.rig.LinesOutside ⟨v⟩)
    (hc : ∀ i ∈ (⟨v⟩ : ChannelMask), (m.rig.channel i).Harmless) :
    Meets ⟨v⟩ m (m.writeEvents a v) (m.write a v) := by
  rw [write_of_start ha, writeEvents, if_pos ha.1, Host.startedBy, if_pos ha.2]
  unfold Host.startChannels Host.starting
  split
  · exact .done m
  · have hspent := level_spend ⟨v⟩ m m.rig.controller.settings.syncDelay
    exact .aside hspent (meets_turns (ChannelMask.nodup_toList _)
      (fun i hi => ChannelMask.mem_toList.mp hi) (hlines.level hspent.rig)
      fun i hi => hc i (ChannelMask.mem_toList.mp hi))

/-! ### Two consoles side by side -/

/-- The consoles at the next `n` events of one that idles. -/
def awaited : Nat → Console → List Console
  | 0, _ => []
  | n + 1, m => m.atEvent :: awaited n m.stepEvent

theorem length_awaited (n : Nat) (m : Console) : (m.awaited n).length = n := by
  induction n generalizing m with
  | zero => rfl
  | succ n ih => exact congrArg (· + 1) (ih m.stepEvent)

theorem level_atEvent (m : Console) : m.Level D m.atEvent := by
  unfold atEvent
  dsimp only
  split
  · exact level_spend D m _
  · exact .refl D m

theorem meets_idle (D : ChannelMask) (n : Nat) (m : Console) :
    Meets D m (m.awaited n) (stepEvent^[n] m) := by
  induction n generalizing m with
  | zero => exact .done m
  | succ n ih => exact .aside (level_atEvent m) (.event (ih m.stepEvent))

/-- Two consoles meet the same event: on the same line of the same frame, writing the same to the
B-bus, and level before and after it but for the channels of `D`. -/
structure SameEvent (D : ChannelMask) (d e : Console) : Prop where
  before : d.Level D e
  after : Level D (Beam.fire d) (Beam.fire e)
  writes : e.writes = d.writes

/-- A console that idles meets the same events as one that is level with it, whatever else the other
does on the way. -/
theorem Meets.level {m h h' : Console} {es : List Console} (hmeets : Meets D h es h')
    (hlevel : m.Level D h) (hlines : h.rig.LinesOutside D)
    (hclear : ∀ d ∈ m.awaited es.length, d.Clear) :
    List.Forall₂ (SameEvent D) (m.awaited es.length) es ∧
      Level D (stepEvent^[es.length] m) h' := by
  induction hmeets generalizing m with
  | done h => exact ⟨.nil, hlevel⟩
  | aside haside _ ih => exact ih (hlevel.trans haside) (hlines.level haside.rig) hclear
  | event _ ih =>
      obtain ⟨hfirst, hrest⟩ := List.forall_mem_cons.mp hclear
      have hbefore := (level_atEvent m).symm.trans hlevel
      obtain ⟨hafter, hwrites⟩ := level_fire hbefore hlines hfirst
      obtain ⟨hsame, hlast⟩ := ih (m := m.stepEvent) hafter (linesOutside_fire hlines) hrest
      exact ⟨.cons ⟨hbefore, hafter, hwrites⟩ hsame, hlast⟩

end Console

/-- After any run from power-on, let the enabled channels send, let `v` be a set of other channels
whose transfers are harmless, and let the line transfers to come read nothing in the register area.
Then starting the transfers of `v` is nothing to the line transfers: the events it meets, and those
that are idled to behind it, are the same as if the console had idled all along. -/
theorem transfers_unnoticed (settings : Settings) (ops : List Operation) {a : Address} {v : UInt8}
    (ha : Console.isControllerAddress a = true ∧ Address.offset a = 0x420B) (n : Nat) :
    let m := ops.foldl (fun m op => op.run m) (Console.powerOn settings)
    let events := m.writeEvents a v
    (∀ i ∈ m.rig.controller.enabled,
      i ∉ (⟨v⟩ : ChannelMask) ∧ (m.rig.channel i).control.reverse = false) →
    (∀ i ∈ (⟨v⟩ : ChannelMask), (m.rig.channel i).Harmless) →
    (∀ d ∈ m.awaited (events.length + n), d.Clear) →
    List.Forall₂ (Console.SameEvent ⟨v⟩) (m.awaited (events.length + n))
        (events ++ (m.write a v).awaited n) ∧
      Console.Level ⟨v⟩ (Console.stepEvent^[events.length + n] m)
        (Console.stepEvent^[n] (m.write a v)) := by
  intro m events henabled hharmless hclear
  have hlines : m.rig.LinesOutside ⟨v⟩ :=
    ⟨((Console.path_run ops (Console.powerOn settings)).consistent (consistent_powerOn rfl)).2,
      henabled⟩
  have hmeets := (Console.meets_write ha hlines hharmless).trans
    (Console.meets_idle ⟨v⟩ n (m.write a v))
  have hlength : (events ++ (m.write a v).awaited n).length = events.length + n := by
    rw [List.length_append, Console.length_awaited]
  rw [← hlength] at hclear ⊢
  exact hmeets.level (.refl _ m) hlines hclear

/-- A table in work RAM sends a byte per line, and there are 200 bytes for a general transfer of
another channel. -/
def besideLines : List Operation :=
  [.load 0x7E1000 [0x83, 0xAA, 0xBB, 0xCC, 0x00],
    .write 0x4310 0x00, .write 0x4311 0x21, .write 0x4312 0x00, .write 0x4313 0x10,
    .write 0x4314 0x7E, .write 0x420C 0x02,
    .write 0x4300 0x01, .write 0x4301 0x18, .write 0x4302 0x00, .write 0x4303 0x20,
    .write 0x4304 0x7E, .write 0x4305 200, .write 0x4306 0x00]

/-- The general transfer takes longer than a line.  The first byte of the table comes within it and
the others later, on the same lines as without it. -/
theorem besideLines_unnoticed :
    let m := besideLines.foldl (fun m op => op.run m) (Console.powerOn .standard)
    let events := m.writeEvents 0x420B 0x01 ++ (m.write 0x420B 0x01).awaited 3
    (m.writeEvents 0x420B 0x01).length = 3 ∧ ((m.write 0x420B 0x01).rig.channel 0).count = 0 ∧
      (m.awaited 6).map (fun d => (d.schedule.line, d.writes)) =
        [(0, []), (0, [(0x2121, 0xAA)]), (0, []), (1, [(0x2121, 0xBB)]), (1, []),
          (2, [(0x2121, 0xCC)])] ∧
      List.Forall₂ (Console.SameEvent ⟨0x01⟩) (m.awaited 6) events ∧
      Console.Level ⟨0x01⟩ (Console.stepEvent^[6] m)
        (Console.stepEvent^[3] (m.write 0x420B 0x01)) := by
  intro m events
  have hlength : (m.writeEvents 0x420B 0x01).length = 3 := by decide +kernel
  refine ⟨hlength, by decide +kernel, by decide +kernel, ?_⟩
  have hunnoticed := transfers_unnoticed .standard besideLines (a := 0x420B) (v := 0x01)
    (by decide) 3 (by decide +kernel) (by decide +kernel)
  rw [hlength] at hunnoticed
  exact hunnoticed (by decide +kernel)

end DmaController
